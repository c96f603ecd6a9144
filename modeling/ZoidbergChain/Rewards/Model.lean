import ZoidbergChain.BlockValidation
import ZoidbergChain.Python.Order
import ZoidbergChain.Scan.Groups
import ZoidbergChain.Scan.Firsts

/-!
# Voter rewards (reward_service.py:46–211)

The plan of the rewards for the voters of a submission, and the selection of the records that a
block pays. Amounts are counted in millionths.

What the service asks its collaborators is a function here: within one call every question has
one answer, the clock's included.
-/

namespace ZoidbergChain.Rewards

open Python

/-! ## What the service reads -/

/-- `VOTER_REWARD_APPROVAL_SIDE`, which the configuration fixes. -/
def approvalSide : String := "original"

/-- `VOTER_REWARD_REJECTION_SIDE`. -/
def rejectionSide : String := "not_original"

def voteOriginal : String := "original"

def voteNotOriginal : String := "not_original"

/-- `MEME_BLOCK_REWARD`. -/
def memeBlockReward : Value := .int 5

/-- The fields of a submission that rewards depend on. -/
structure Submission where
  submissionId : String
  status : String
  contentHash : Value
  certificateId : Value
  decisionReason : Value
  decisionFinalizedAt : Value
  creatorWalletAddress : Value
  submitter : Value

/-- The fields of an originality certificate that rewards depend on. -/
structure Certificate where
  certificateId : Value
  approvedAt : Value

/-- What `get_submission_votes` returns. -/
structure VoteSummary where
  votes : List Dict
  original : Int
  notOriginal : Int
  approvalPercentage : Rat

/-- The settings, from the configuration and the state's own. -/
structure Settings where
  requireAccess : Bool
  requireReviewEligible : Bool
  defaultEnabled : Bool
  enabled : Bool
  poolPerDecision : Value
  maxPerWallet : Value
  minDecisiveVotes : Int
  approvalThreshold : Rat

/-- `RewardState`. -/
structure RewardState where
  chain : List (Block ⊕ Dict)
  submissions : List Submission
  rewardPool : Value
  settings : Settings

/-- `RewardCollaborators`, with the clock and the reading of ISO times; the normalization of
wallets is the ledger's. -/
structure RewardCollaborators where
  getSubmission : String → Option Submission
  getVotes : String → Py VoteSummary
  getCertificate : String → Option Certificate
  /-- `get_voting_threshold(now=now)["minimum_votes"]`. -/
  minimumVotes : Int
  /-- `now >= submission.created_at + VOTING_WINDOW_HOURS * 60 * 60`. -/
  windowExpired : Submission → Bool
  /-- `allowed` and `reason` of `access_decision(wallet)`. -/
  accessDecision : String → Bool × String
  getWalletBinding : String → Option Dict
  getAccessAccount : String → Option Dict
  /-- `find_allowlist_entry("rewards", wallet, account)` finds one. -/
  allowlisted : String → Option Dict → Bool
  /-- `evaluate_review_eligibility(...).eligible`. -/
  reviewEligible : String → Py Bool
  /-- `datetime.fromisoformat(text.replace("Z", "+00:00")).timestamp()`, unless it raises. -/
  isoTimestamp : String → Option PyFloat
  now : PyFloat

/-- A reward decision. -/
structure Decision where
  submissionId : String
  outcome : String
  finalDecision : String
  voteChoice : String
  certificateId : Value
  contentHash : Value
  decisionReason : Value
  decisionFinalizedAt : Value

/-- A voter reward record. -/
structure RewardRecord where
  rewardId : String
  recipient : String
  amount : String
  decision : Decision

/-- The dictionary of a record. -/
def RewardRecord.toDict (r : RewardRecord) : Dict :=
  [("reward_id", .str r.rewardId), ("reward_type", .str "voter_majority_reward"),
    ("reward_recipient", .str r.recipient), ("voter_wallet_address", .str r.recipient),
    ("reward_amount", .str r.amount), ("reward_source", .str "reward_pool"),
    ("reward_status", .str "pending"), ("submission_id", .str r.decision.submissionId),
    ("certificate_id", r.decision.certificateId), ("content_hash", r.decision.contentHash),
    ("vote_choice", .str r.decision.voteChoice),
    ("final_decision", .str r.decision.finalDecision),
    ("decision_reason", r.decision.decisionReason),
    ("decision_finalized_at", r.decision.decisionFinalizedAt),
    ("created_at", r.decision.decisionFinalizedAt), ("network_name", .str "zoidberg-testnet")]

/-- A wallet that is left out, and why. -/
structure Exclusion where
  walletAddress : String
  reason : String

/-- A reward plan. -/
structure Plan where
  decision : Option Decision
  rewardsEnabled : Bool
  eligible : Bool
  reason : String
  records : List RewardRecord
  excluded : List Exclusion
  rewardCount : Nat
  amountPerVoter : String
  totalDistributed : String
  undistributedRemainder : String

/-! ## Amounts -/

/-- The result of an operation on decimals, rounded to the precision of the context. -/
def inContext (q : Rat) : Rat :=
  if q = 0 then 0
  else
    let d := nearestDecimal q contextPrecision
    (if q < 0 then -1 else 1) * d.1 * (10 : Rat) ^ d.2

/-- `reward_units_from_decimal`. -/
def rewardUnitsFromDecimal : Decimal → Py Int
  | .finite q => .ok (roundHalfEven (inContext (q * 1000000)))
  | .inf _ =>
    .error { exc := .overflowError, message := "cannot convert Infinity to integer" }
  | .nan _ => .error (.value "cannot convert NaN to integer")

/-- `normalize_reward_amount` of a number of units. -/
def normalizeRewardAmount (units : Int) : String :=
  let text := stripFraction (Numeral.normalize ⟨decide (units < 0), units.natAbs, -6⟩).fixedText
  if text = [] ∨ text = ['-', '0'] then "0" else String.ofList text

/-- `reward_id`. -/
def rewardId (submissionId walletAddress finalDecision : String) : String :=
  "voter_reward:" ++ submissionId ++ ":" ++ walletAddress ++ ":" ++ finalDecision

section Service

variable (h : Host)

/-- `reward_units_from_amount_string`. -/
def rewardUnitsFromAmountString (amount : Value) (allowZero : Bool) : Py Int := do
  let text ← parseNativeZoidAmount h (amount.orElse (.str "0")) allowZero
  rewardUnitsFromDecimal (← Decimal.ofString text)

/-! ## Settled rewards -/

/-- `block_voter_rewards`. -/
def voterRewardsOf : Block ⊕ Dict → Py (List Value)
  | .inl block => .ok block.voterRewards
  | .inr block => blockVoterRewards block

/-- `settled_voter_reward_ids`. -/
def settledIds (chain : List (Block ⊕ Dict)) : Py (List String) := do
  let entries ← chain.mapM voterRewardsOf
  let ids ← entries.flatten.mapM fun entry => do
    return ((← entry.asDict).get "reward_id").trimmed h.toRuntime
  return ids.filter (· ≠ "")

variable (c : RewardCollaborators)

/-! ## The decision on a submission -/

/-- `_timestamp`, with `None` where there is none. -/
def timestamp (value : Value) : Py Value :=
  if Value.pyEq value .null || Value.pyEq value (.str "") then .ok .null
  else
    match value.toFloat with
    | .ok f => .ok (.float f)
    | .error e =>
      if e.exc = .typeError ∨ e.isValueError = true then
        .ok (match c.isoTimestamp (value.text h.toRuntime) with
          | some f => .float f
          | none => .null)
      else .error e

/-- `decision_finalized_at`. -/
def decisionFinalizedAt (submission : Submission) (summary : VoteSummary) : Py Value :=
  match (c.getCertificate submission.submissionId).map Certificate.approvedAt with
  | some approvedAt =>
    if approvedAt.isNone then fallback else .ok approvedAt
  | none => fallback
where
  fallback : Py Value :=
    if submission.decisionFinalizedAt.isNone then do
      let times ← summary.votes.mapM fun vote => timestamp h c (vote.get "created_at")
      let times := times.filter fun t => !t.isNone
      if times.isEmpty then .ok (.float c.now) else maxPy times
    else .ok submission.decisionFinalizedAt

variable (s : RewardState)

/-- `get_submission_reward_decision`. -/
def getSubmissionRewardDecision (submissionId : String) : Py (Option Decision) := do
  let submission ← orRaise (c.getSubmission submissionId)
    (.value ("Submission not found: " ++ submissionId))
  let summary ← c.getVotes submissionId
  let certificate := c.getCertificate submissionId
  let reason := submission.decisionReason
  if summary.original + summary.notOriginal < s.settings.minDecisiveVotes then return none
  else if certificate.isSome ∨ submission.status ∈ ["approved", "queued", "minted"] then do
    let finalizedAt ← decisionFinalizedAt h c submission summary
    return some {
      submissionId
      outcome := "approved_original"
      finalDecision := approvalSide
      voteChoice := voteOriginal
      certificateId := (certificate.map Certificate.certificateId).getD submission.certificateId
      contentHash := submission.contentHash
      decisionReason := reason.orElse (.str "approved_by_vote")
      decisionFinalizedAt := finalizedAt }
  else if submission.status ≠ "rejected" ∨
      ¬(reason.isNone = true ∨ Value.pyEq reason (.str "rejected_by_vote") = true) then
    return none
  else if ¬(c.windowExpired submission = true ∨ c.minimumVotes ≤ summary.votes.length) ∨
      s.settings.approvalThreshold ≤ summary.approvalPercentage then
    return none
  else do
    let finalizedAt ← decisionFinalizedAt h c submission summary
    return some {
      submissionId
      outcome := "rejected_not_original"
      finalDecision := rejectionSide
      voteChoice := voteNotOriginal
      certificateId := .null
      contentHash := submission.contentHash
      decisionReason := reason.orElse (.str "rejected_by_vote")
      decisionFinalizedAt := finalizedAt }

/-! ## The voters of a decision -/

/-- `normalize_wallet(vote.get("voter_wallet_address") or vote.get("voter"))`. -/
def voterWallet (vote : Dict) : Option String :=
  normalizeWalletIdentity h.toRuntime ((vote.get "voter_wallet_address").orElse (vote.get "voter"))

/-- The sort key of a vote. -/
def voteKey (vote : Dict) : Py (String × Value) := do
  let time ← timestamp h c (vote.get "created_at")
  return ((voterWallet h vote).getD "", time.orElse (.int 0))

/-- The order of the votes: by wallet, then by time. -/
def voteBefore (v w : (String × Value) × Dict) : Py Bool :=
  if v.1.1 ≠ w.1.1 then .ok (decide (v.1.1 < w.1.1))
  else if v.1.2.isOrEq w.1.2 then .ok false
  else v.1.2.lt w.1.2

/-- The first vote of each wallet but the creator's. -/
def firstVotes (creator : Option String) (votes : List Dict) : List Dict :=
  Scan.firsts (voterWallet h) <| votes.filter fun vote =>
    (voterWallet h vote).isSome && decide (voterWallet h vote ≠ creator)

/-- `str(d.get("status") or "").strip().lower()`. -/
def statusOf (d : Dict) : String := loweredText h (d.get "status")

/-- Why a voter gets nothing, if so. -/
def exclusionReason (wallet : String) : Py (Option String) :=
  if s.settings.requireAccess = true ∧ (c.accessDecision wallet).1 = false then
    .ok (some (c.accessDecision wallet).2)
  else if s.settings.requireReviewEligible = false then .ok none
  else
    let binding := (c.getWalletBinding wallet).filter (!·.isEmpty)
    let account := (c.getAccessAccount wallet).filter (!·.isEmpty)
    if binding.map (statusOf h) = some "revoked" then .ok (some "wallet_binding_revoked")
    else if account.map (statusOf h) = some "suspended" ∨
        account.map (statusOf h) = some "revoked" then
      .ok (some ("access_account_" ++ (account.map (statusOf h)).getD ""))
    else if c.allowlisted wallet (c.getAccessAccount wallet) = true then .ok none
    else do
      let eligible ← c.reviewEligible wallet
      return if eligible then none else some "review_eligibility_required"

/-- `eligible_voter_reward_wallets`. -/
def eligibleVoterRewardWallets (decision : Decision) : Py (List Dict × List Exclusion) := do
  let summary ← c.getVotes decision.submissionId
  let creator := (c.getSubmission decision.submissionId).bind fun submission =>
    normalizeWalletIdentity h.toRuntime
      (submission.creatorWalletAddress.orElse submission.submitter)
  let votes := summary.votes.filter fun vote =>
    Value.pyEq (vote.get "vote_type") (.str decision.voteChoice)
  let keyed ← votes.mapM fun vote => do return (← voteKey h c vote, vote)
  let sorted ← sortPy voteBefore keyed
  let unique := firstVotes h creator (sorted.map Prod.snd)
  let judged ← unique.mapM fun vote => do
    let wallet := (voterWallet h vote).getD ""
    return (vote, wallet, ← exclusionReason h c s wallet)
  return ((judged.filter fun j => j.2.2.isNone).map Prod.fst,
    judged.filterMap fun j => j.2.2.map fun reason => ⟨j.2.1, reason⟩)

/-! ## The plan of a submission -/

/-- `_empty_plan`. -/
def emptyPlan (reason : String) (enabled : Bool) : Plan where
  decision := none
  rewardsEnabled := enabled
  eligible := false
  reason := reason
  records := []
  excluded := []
  rewardCount := 0
  amountPerVoter := "0"
  totalDistributed := "0"
  undistributedRemainder := "0"

/-- The share of each voter: the pool divided, and cut to the maximum when there is one. -/
def sharePerWallet (total : Int) (voters : Nat) (maximum : Int) : Int :=
  if 0 < maximum then min (total / voters) maximum else total / voters

/-- The record of a voter. -/
def recordFor (decision : Decision) (amount wallet : String) : RewardRecord where
  rewardId := rewardId decision.submissionId wallet decision.finalDecision
  recipient := wallet
  amount := amount
  decision := decision

/-- `build_submission_voter_reward_plan`. -/
def buildSubmissionVoterRewardPlan (submissionId : String) : Py Plan := do
  match ← getSubmissionRewardDecision h c s submissionId with
  | none => return emptyPlan "decision_not_reward_eligible" s.settings.defaultEnabled
  | some decision => do
    let (votes, excluded) ← eligibleVoterRewardWallets h c s decision
    let without (reason : String) (enabled : Bool) : Plan :=
      { emptyPlan reason enabled with decision := some decision, excluded := excluded }
    if s.settings.enabled = false then return without "voter_rewards_disabled" false
    else if votes.isEmpty then do
      let total ← rewardUnitsFromAmountString h s.settings.poolPerDecision true
      return { without "no_eligible_majority_voters" true with
        undistributedRemainder := normalizeRewardAmount total }
    else do
      let total ← rewardUnitsFromAmountString h s.settings.poolPerDecision true
      if total ≤ 0 then return without "reward_pool_zero" true
      else do
        let maximum ← rewardUnitsFromAmountString h s.settings.maxPerWallet true
        let perWallet := sharePerWallet total votes.length maximum
        if perWallet ≤ 0 then
          return { without "reward_amount_rounds_to_zero" true with
            undistributedRemainder := normalizeRewardAmount total }
        else do
          let amount := normalizeRewardAmount perWallet
          let records := (votes.filterMap (voterWallet h)).map (recordFor decision amount)
          let distributed := perWallet * records.length
          return {
            decision := some decision
            rewardsEnabled := true
            eligible := true
            reason := "reward_plan_ready"
            records := records
            excluded := excluded
            rewardCount := records.length
            amountPerVoter := amount
            totalDistributed := normalizeRewardAmount distributed
            undistributedRemainder := normalizeRewardAmount (total - distributed) }

/-! ## The selection for a block -/

/-- The records of a plan that no block has settled. -/
def unsettled (settled : List String) (plan : Plan) : List RewardRecord :=
  if plan.eligible then plan.records.filter fun r => r.rewardId ∉ settled else []

/-- The order of the records that are due. -/
def dueBefore (r r' : RewardRecord) : Py Bool :=
  let time := r.decision.decisionFinalizedAt.orElse (.int 0)
  let time' := r'.decision.decisionFinalizedAt.orElse (.int 0)
  if time.isOrEq time' then
    .ok (decide (r.decision.submissionId < r'.decision.submissionId ∨
      (r.decision.submissionId = r'.decision.submissionId ∧ r.recipient < r'.recipient)))
  else time.lt time'

/-- `due_voter_reward_records`. -/
def dueVoterRewardRecords : Py (List RewardRecord) := do
  let settled ← settledIds h s.chain
  let plans ← s.submissions.mapM fun submission =>
    buildSubmissionVoterRewardPlan h c s submission.submissionId
  sortPy dueBefore (plans.flatMap (unsettled settled))

/-- The sum of the amounts of records, in units. -/
def unitsOf (records : List RewardRecord) : Py Int := do
  let units ← records.mapM fun r => rewardUnitsFromAmountString h (.str r.amount) false
  return units.sum

/-- The records that the block of an approved submission must pay. -/
def prioritizedRecords (settled : List String) (plan : Plan) : List RewardRecord :=
  if plan.decision.map Decision.finalDecision = some approvalSide then unsettled settled plan
  else []

/-- What `select_voter_reward_records_for_block` returns. -/
structure Selection where
  selected : List RewardRecord
  skipped : List RewardRecord

/-- The records of a submission among those that are due. -/
def groupOf (due : List RewardRecord) (submissionId : String) : List RewardRecord :=
  due.filter fun r => r.decision.submissionId = submissionId

/-- The groups by submission, in the order of the identifiers, that the rest of the pool pays. -/
def selectGroups (due : List RewardRecord) (remaining : Int) : Py Selection := do
  let ids := ((due.map fun r => r.decision.submissionId).dedup).insertionSort (· ≤ ·)
  let priced ← ids.mapM fun id => do return (groupOf due id, ← unitsOf h (groupOf due id))
  let (taken, left) := Scan.takeFitting remaining priced
  return ⟨taken.flatten, left.flatten⟩

/-- `select_voter_reward_records_for_block`. -/
def selectVoterRewardRecordsForBlock (prioritizedSubmissionId : Option String)
    (rewardPoolBalance : Option Value) : Py Selection := do
  let available := rewardPoolBalance.getD s.rewardPool
  let pool ← rewardUnitsFromDecimal (← available.decimal h.toRuntime)
  let meme ← rewardUnitsFromDecimal (← memeBlockReward.decimal h.toRuntime)
  let due ← dueVoterRewardRecords h c s
  if pool - meme ≤ 0 then return ⟨[], due⟩
  else do
    match prioritizedSubmissionId.filter (· ≠ "") with
    | none => selectGroups h due (pool - meme)
    | some id => do
      let plan ← buildSubmissionVoterRewardPlan h c s id
      let settled ← settledIds h s.chain
      let prioritized := prioritizedRecords settled plan
      let units ← unitsOf h prioritized
      require (units ≤ pool - meme) (.value
        "Insufficient reward pool to finalize approved-original voter rewards in the mint block.")
      let rest := due.filter fun r => r.rewardId ∉ prioritized.map RewardRecord.rewardId
      let selection ← selectGroups h rest (pool - meme - units)
      return ⟨prioritized ++ selection.selected, selection.skipped⟩

end Service

end ZoidbergChain.Rewards
