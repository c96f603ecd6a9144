import ZoidbergChain.Protocol
import ZoidbergChain.Python.Number

/-!
# Blocks (block.py, transaction.py)

A `Block` object and its dictionary. `Block.fromDict` is the constructor behind
`Block.from_dict`, `Block.toDict` writes the metadata fields that are present.

The fields of a block are values, as the constructor stores them; it normalizes only
the network identifier, the media bytes and the lists.
-/

namespace ZoidbergChain

open Python

def protocolV1BlockVersion : Int := 1
def admissionBlockVersion : Int := 2

/-- `Block._coerce_media_bytes`. -/
def coerceMediaBytes : Value → Py (Option (List UInt8))
  | .null => .ok none
  | .bytes b => .ok (some b)
  | v => do return some (← decodeCanonicalBytes v)

/-! ## Transactions -/

/-- `Transaction`. -/
structure Transaction where
  sender : Value
  recipient : Value
  amount : Value
  tip : Value
  payloadSizeKb : Value
  signature : Value
  createdAt : Value
  deriving DecidableEq

/-- `Transaction.to_dict`. -/
def Transaction.toDict (tx : Transaction) : Dict :=
  [("sender", tx.sender), ("recipient", tx.recipient), ("amount", tx.amount), ("tip", tx.tip),
    ("signature", tx.signature), ("payload_size_kb", tx.payloadSizeKb),
    ("created_at", tx.createdAt)]

/-- `Transaction.from_dict`; `now` is the clock behind a creation time of `None`. -/
def Transaction.fromDict (now : Value) (data : Dict) : Py Transaction := do
  let sender ← data.index "sender"
  let recipient ← data.index "recipient"
  let amount ← data.index "amount"
  let createdAt := data.getD "created_at" (.int 0)
  return {
    sender, recipient, amount
    tip := data.getD "tip" (.int 0)
    payloadSizeKb := data.getD "payload_size_kb" (.int 0)
    signature := data.get "signature"
    createdAt := if createdAt.isNone then now else createdAt }

/-- An item of the transactions of a block: an object or a plain dictionary. -/
inductive BlockTransaction where
  | object (tx : Transaction)
  | dict (tx : Dict)

/-- `Block._transaction_to_dict`. -/
def BlockTransaction.toDict : BlockTransaction → Dict
  | .object tx => tx.toDict
  | .dict tx => tx

/-! ## The block object -/

/-- `Block`. -/
structure Block where
  index : Value
  previousHash : Value
  timestamp : Value
  transactions : List BlockTransaction
  miner : Value
  meme : Value
  blockVersion : Value
  genesisVersion : Value
  protocolVersion : Value
  networkId : Option String
  mediaHash : Value
  mediaBytes : Option (List UInt8)
  submissionId : Value
  certificateId : Value
  contentHash : Value
  contentId : Value
  contentType : Value
  mimeType : Value
  creatorWallet : Value
  voteHash : Value
  approvalPercentage : Value
  decisiveVoteTotal : Value
  minimumVotesRequired : Value
  approvedAt : Value
  originalityScore : Value
  rewardType : Value
  rewardRecipient : Value
  rewardAmount : Value
  rewardSource : Value
  mintedAt : Value
  voterRewards : List Value
  nativeTransactions : List Dict
  transactionIds : List Value
  transactionCount : Int
  transactionsHash : Value
  totalSupply : Value
  initialRewardPool : Value
  admissionCertificate : Value
  hash : Value

/-- The entry of a pair in `dict(pairs)`. Keys are texts here. -/
def asPair (item : Value) : Py (String × Value) := do
  match ← item.iter with
  | [.str key, value] => .ok (key, value)
  | [_, _] => .error (.type "dictionary keys must be strings")
  | _ => .error (.value "dictionary update sequence element has the wrong length; 2 is required")

/-- `dict(v)`: a copy of a dictionary, or one from a sequence of pairs. -/
def dictOf : Value → Py Dict
  | .dict d => .ok d
  | v => do return (← (← v.iter).mapM asPair).foldl (fun d kv => d.set kv.1 kv.2) []

/-- `v or None` of a list. -/
def listOrNone (xs : List Value) : Value := if xs.isEmpty then .null else .list xs

/-- The entries whose value is not `None`. -/
def presentEntries (entries : Dict) : Dict := entries.filter fun e => !e.2.isNone

/-- `normalize_network_id(network_id) if network_id is not None else None`. -/
def normalizeOptionalNetworkId (h : Host) (networkId : Value) : Py (Option String) :=
  if networkId.isNone then .ok none else do return some (← normalizeNetworkId h networkId)

/-- `Block.from_dict`, behind the conversion of the transactions. The hash of the data is
kept; without one, `calculateHash` computes it. -/
def Block.ofFields (h : Host) (calculateHash : Block → Py String)
    (transactions : List BlockTransaction) (data : Dict) : Py Block := do
  let index ← data.index "index"
  let previousHash ← data.index "previous_hash"
  let timestamp ← data.index "timestamp"
  let miner ← data.index "miner"
  let networkId ← normalizeOptionalNetworkId h (data.get "network_id")
  let mediaBytes ← coerceMediaBytes (data.get "media_bytes")
  let voterRewards ← (data.get "voter_rewards").listOrEmpty
  let nativeTransactions ← (← (data.get "native_transactions").listOrEmpty).mapM dictOf
  let transactionIds := data.get "transaction_ids"
  let ids ← (if transactionIds.truthy then transactionIds else
    .list ((nativeTransactions.map (Dict.get · "tx_id")).filter Value.truthy)).iter
  let transactionCount := data.get "transaction_count"
  let count ← (if transactionCount.isNone then .int nativeTransactions.length
    else transactionCount).toInt
  let block : Block := {
    index, previousHash, timestamp, transactions, miner
    meme := (data.getD "meme" (.dict [])).orElse (.str "default-meme")
    blockVersion := data.get "block_version"
    genesisVersion := data.get "genesis_version"
    protocolVersion := data.get "protocol_version"
    networkId
    mediaHash := data.get "media_hash"
    mediaBytes
    submissionId := data.get "submission_id"
    certificateId := data.get "certificate_id"
    contentHash := data.get "content_hash"
    contentId := data.get "content_id"
    contentType := data.get "content_type"
    mimeType := data.get "mime_type"
    creatorWallet := data.get "creator_wallet"
    voteHash := data.get "vote_hash"
    approvalPercentage := data.get "approval_percentage"
    decisiveVoteTotal := data.get "decisive_vote_total"
    minimumVotesRequired := data.get "minimum_votes_required"
    approvedAt := data.get "approved_at"
    originalityScore := data.get "originality_score"
    rewardType := data.get "reward_type"
    rewardRecipient := data.get "reward_recipient"
    rewardAmount := data.get "reward_amount"
    rewardSource := data.get "reward_source"
    mintedAt := data.get "minted_at"
    voterRewards, nativeTransactions
    transactionIds := ids
    transactionCount := count
    transactionsHash := data.get "transactions_hash"
    totalSupply := data.get "total_supply"
    initialRewardPool := data.get "initial_reward_pool"
    admissionCertificate := data.get "admission_certificate"
    hash := data.get "hash" }
  if block.hash.truthy then return block
  else do
    let hash ← calculateHash block
    return { block with hash := .str hash }

/-- The object of an item of `transactions`. -/
def readTransaction (now : Value) : Value → Py BlockTransaction
  | .dict tx => do return .object (← Transaction.fromDict now tx)
  | _ => .error (.type "indices must be integers")

/-- `Block.from_dict`. -/
def Block.fromDict (h : Host) (calculateHash : Block → Py String) (now : Value) (data : Dict) :
    Py Block := do
  let transactions ← (← (← data.index "transactions").iter).mapM (readTransaction now)
  Block.ofFields h calculateHash transactions data

/-! ## The dictionary of a block -/

/-- `encode_canonical_bytes` of optional media. -/
def optionBytes : Option (List UInt8) → Value
  | some b => .dict [("$type", .str "bytes"), ("$encoding", .str "hex"),
      ("$value", .str (hexText b))]
  | none => .null

/-- `protocol_v1_metadata`. -/
def Block.protocolV1Metadata (b : Block) : Dict :=
  presentEntries [("block_version", b.blockVersion), ("genesis_version", b.genesisVersion),
    ("protocol_version", b.protocolVersion), ("network_id", optionText b.networkId),
    ("media_hash", b.mediaHash), ("total_supply", b.totalSupply),
    ("initial_reward_pool", b.initialRewardPool), ("media_bytes", optionBytes b.mediaBytes)]

/-- `certificate_metadata`. -/
def Block.certificateMetadata (b : Block) : Dict :=
  presentEntries [("submission_id", b.submissionId), ("certificate_id", b.certificateId),
    ("content_hash", b.contentHash), ("content_id", b.contentId),
    ("content_type", b.contentType), ("mime_type", b.mimeType),
    ("creator_wallet", b.creatorWallet), ("vote_hash", b.voteHash),
    ("approval_percentage", b.approvalPercentage),
    ("decisive_vote_total", b.decisiveVoteTotal),
    ("minimum_votes_required", b.minimumVotesRequired), ("approved_at", b.approvedAt),
    ("originality_score", b.originalityScore), ("reward_type", b.rewardType),
    ("reward_recipient", b.rewardRecipient), ("reward_amount", b.rewardAmount),
    ("reward_source", b.rewardSource), ("minted_at", b.mintedAt),
    ("voter_rewards", listOrNone b.voterRewards),
    ("native_transactions", listOrNone (b.nativeTransactions.map .dict)),
    ("transaction_ids", listOrNone b.transactionIds),
    ("transaction_count",
      if b.nativeTransactions.isEmpty then .null else .int b.transactionCount),
    ("transactions_hash", b.transactionsHash),
    ("admission_certificate", b.admissionCertificate)]

/-- The fields that every block dictionary has. -/
def Block.baseFields (b : Block) : Dict :=
  [("index", b.index), ("transactions", .list (b.transactions.map fun tx => .dict tx.toDict)),
    ("previous_hash", b.previousHash), ("miner", b.miner), ("meme", b.meme),
    ("timestamp", b.timestamp), ("hash", b.hash)]

/-- `Block.to_dict`. -/
def Block.toDict (b : Block) : Dict :=
  (b.baseFields.update b.protocolV1Metadata).update b.certificateMetadata

end ZoidbergChain
