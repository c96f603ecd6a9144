import ZoidbergChain.Python.Control
import ZoidbergChain.ReviewerPolicy
import ZoidbergChain.Wallet

/-!
# Reviewer eligibility (services/reviewer_eligibility_service.py)

The status of a reviewer at a finalized reference, derived from the canonical
chain, the accepted durable votes and the reputation penalties.

- `finalizedContext`, `canonicalActivity`, `qualification`: what the chain up to
  the reference says about a wallet.
- `acceptedVotes`: one vote per submission, the first one the store lists.
- `effectivePenalty` (reviewer_reputation.py:393–413): the penalty in force in an
  epoch.
- `statusAtReference`: the status itself. Its three stages are definitions of
  their own: `frozenStatus` (a recorded cooldown or suspension, only when no
  penalty is recorded), `underlyingStatus` (earned standing) and `activeStatus`
  (a penalty overrides it).

Blocks are the block dictionaries; the rows of the durable store are records with
the columns that are read here.
-/

namespace ZoidbergChain

open Python

/-! ## The durable store -/

/-- `lifecycle_state` of a durable vote (storage.py:1565). -/
inductive VoteLifecycle where
  | accepted
  | rejected
  deriving DecidableEq

/-- A row of `durable_vote_records`. -/
structure DurableVote where
  submissionId : String
  voterAddress : String
  lifecycleState : VoteLifecycle
  reviewerPolicyVersion : Option Int
  reviewerStatus : Option ReviewerStatus
  reviewerStatusEffectiveHeight : Option Int
  deriving DecidableEq

/-- A row of `reviewer_penalties`. -/
structure ReviewerPenalty where
  penaltyId : String
  reviewerAddress : String
  penaltyStatus : ReviewerStatus
  penaltyStartEpoch : Int
  penaltyEndEpoch : Int
  referenceFinalizedHeight : Int
  reputationRuleVersion : Int
  deriving DecidableEq

/-- A row of `reviewer_state_transitions`. -/
structure ReviewerTransition where
  reviewerAddress : String
  toStatus : ReviewerStatus
  reviewerPolicyVersion : Int
  reputationRuleVersion : Int
  statusEffectiveHeight : Option Int
  deriving DecidableEq

/-- The durable reviewer tables, each in the order the store lists it. -/
structure ReviewerStore where
  votes : List DurableVote
  penalties : List ReviewerPenalty
  transitions : List ReviewerTransition

namespace ReviewerStore

/-- `list_durable_votes_for_reviewer`. -/
def listDurableVotesForReviewer (s : ReviewerStore) (address : String) : List DurableVote :=
  s.votes.filter (·.voterAddress = address)

/-- `list_reviewer_penalties`. -/
def listReviewerPenalties (s : ReviewerStore) (address : String) : List ReviewerPenalty :=
  s.penalties.filter (·.reviewerAddress = address)

/-- `list_reviewer_state_history`. -/
def listReviewerStateHistory (s : ReviewerStore) (address : String) : List ReviewerTransition :=
  s.transitions.filter (·.reviewerAddress = address)

end ReviewerStore

/-! ## Finalized ancestry -/

/-- A finalized head: the height and hash of a block. -/
structure FinalizedHead where
  blockHeight : Int
  blockHash : String

/-- The result of `finalized_context`: the reference and its ancestry, sorted by
height. -/
structure FinalizedContext where
  height : Int
  blockHash : String
  blocks : List Dict

/-- `int(block_value(block, "index", -1))`. -/
def blockIndexOrMinusOne (block : Dict) : Py Int := (block.getD "index" (.int (-1))).toInt

/-- `int(block_value(block, "index"))`. -/
def blockIndex (block : Dict) : Py Int := (block.get "index").toInt

/-- `str(block_value(block, "hash") or "").strip().lower()`. -/
def blockHashText (rt : Runtime) (block : Dict) : String :=
  rt.lower (Value.trimmed rt (block.get "hash"))

/-- The blocks up to a height, in the order of their heights. -/
def ancestry (chain : List Dict) (height : Int) : Py (List Dict) := do
  let kept ← filterPy (fun block => do return decide ((← blockIndexOrMinusOne block) ≤ height))
    chain
  let keyed ← kept.mapM fun block => do return ((← blockIndex block), block)
  return (keyed.insertionSort fun a b => a.1 ≤ b.1).map (·.2)

/-- `ReviewerEligibilityService.finalized_context` for a given head (lines 57–70). -/
def finalizedContext (rt : Runtime) (chain : List Dict) (head : FinalizedHead) :
    Py FinalizedContext := do
  let height := head.blockHeight
  let blockHash := rt.lower (strip head.blockHash)
  let blocks ← ancestry chain height
  let canonical ← findPy (fun block => do return decide ((← blockIndex block) = height)) blocks
  require (∃ block ∈ canonical, blockHashText rt block = blockHash)
    (.value "Finalized reviewer reference does not match the canonical chain.")
  return { height, blockHash, blocks }

/-! ## Canonical activity and qualification -/

/-- The participation of a wallet: its minted submissions and counted transfers
with their heights, and the heights of everything that gives the wallet an age. -/
structure Activity where
  minted : List (String × Int)
  native : List (String × Int)
  originHeights : List Int

/-- `d.setdefault(key, height)`. -/
def addOnce (entries : List (String × Int)) (key : String) (height : Int) :
    List (String × Int) :=
  if key ∈ entries.map (·.1) then entries else entries ++ [(key, height)]

/-- One native transaction of a block: a self-transfer ages the wallet but is not
counted. -/
def activityTransaction (rt : Runtime) (address : String) (height : Int) (acc : Activity)
    (transaction : Value) : Activity :=
  match transaction with
  | .dict tx =>
    let txId := rt.lower (Value.trimmed rt (Dict.get tx "tx_id"))
    let sender := NativeTransfer.normalizeWalletAddress rt (Dict.get tx "from_address")
    let recipient := NativeTransfer.normalizeWalletAddress rt (Dict.get tx "to_address")
    if some address ≠ sender ∧ some address ≠ recipient then acc
    else
      let acc := { acc with originHeights := acc.originHeights ++ [height] }
      if txId ≠ "" ∧ sender ≠ recipient then
        { acc with native := addOnce acc.native txId height }
      else acc
  | _ => acc

/-- One block of the ancestry. -/
def activityBlock (rt : Runtime) (address : String) (acc : Activity) (block : Dict) :
    Py Activity := do
  let height ← blockIndex block
  let submissionId := Value.trimmed rt (block.get "submission_id")
  let creator := NativeTransfer.normalizeWalletAddress rt (block.get "creator_wallet")
  let acc := if submissionId ≠ "" ∧ creator = some address then
      { acc with
        minted := addOnce acc.minted submissionId height
        originHeights := acc.originHeights ++ [height] }
    else acc
  let transactions ← (block.get "native_transactions").listOrEmpty
  return transactions.foldl (activityTransaction rt address height) acc

/-- `_canonical_activity` (lines 72–102). The order of the two lists is not read. -/
def canonicalActivity (rt : Runtime) (address : String) (blocks : List Dict) : Py Activity :=
  blocks.foldlM (activityBlock rt address) { minted := [], native := [], originHeights := [] }

/-- The evidence of `qualification` that decisions are taken on. -/
structure Qualification where
  referenceFinalizedHeight : Int
  reviewEpoch : Int
  walletOriginHeight : Option Int
  walletAgeEpochs : Int
  finalizedMintedSubmissions : Nat
  finalizedNativeTransactions : Nat
  activitySpanEpochs : Int
  creatorQualified : Bool
  zoidQualified : Bool
  mixedQualified : Bool

/-- `overall_qualified`: one of the three paths is open. -/
def Qualification.overallQualified (q : Qualification) : Bool :=
  q.creatorQualified || q.zoidQualified || q.mixedQualified

/-- `ReviewerEligibilityService.qualification` of a normalized address (lines
104–135). -/
def qualification (rt : Runtime) (address : String) (chain : List Dict) (head : FinalizedHead)
    (policyVersion : Int) : Py Qualification := do
  let policy ← reviewerPolicy policyVersion
  let context ← finalizedContext rt chain head
  let height := context.height
  let activity ← canonicalActivity rt address context.blocks
  let epoch ← reviewEpoch height policyVersion
  let origin := activity.originHeights.min?
  let walletAge := match origin with
    | some o => (height - o) / policy.reviewEpochBlocks
    | none => 0
  let activityEpochs ← activity.native.mapM fun item => reviewEpoch item.2 policyVersion
  let span := match activityEpochs.max?, activityEpochs.min? with
    | some hi, some lo => hi - lo
    | _, _ => 0
  let minted := activity.minted.length
  let native := activity.native.length
  let ageOk := origin.isSome && decide (minWalletAgeEpochs ≤ walletAge)
  return {
    referenceFinalizedHeight := height
    reviewEpoch := epoch
    walletOriginHeight := origin
    walletAgeEpochs := walletAge
    finalizedMintedSubmissions := minted
    finalizedNativeTransactions := native
    activitySpanEpochs := span
    creatorQualified := ageOk && decide (creatorPathMinFinalizedMintedSubmissions ≤ minted)
    zoidQualified := ageOk && decide (zoidPathMinFinalizedNativeTransactions ≤ native)
      && decide (zoidPathMinActivitySpanEpochs ≤ span)
    mixedQualified := ageOk && decide (mixedPathMinFinalizedMintedSubmissions ≤ minted)
      && decide (mixedPathMinFinalizedNativeTransactions ≤ native) }

/-- The first height of `heights` at which the wallet qualifies (lines 313–329):
every earlier finalized reference is evaluated on the same ancestry. -/
def firstQualifiedHeight (rt : Runtime) (address : String) (blocks : List Dict)
    (policyVersion : Int) : List Int → Py (Option Int)
  | [] => .ok none
  | candidateHeight :: rest => do
    let found ← findPy (fun block => do return decide ((← blockIndex block) = candidateHeight))
      blocks
    match found with
    | none => .error { exc := .stopIteration, message := "" }
    | some block =>
      let blockHash := rt.lower (strip ((block.get "hash").text rt))
      let candidate ← qualification rt address blocks
        { blockHeight := candidateHeight, blockHash } policyVersion
      if candidate.overallQualified then .ok (some candidateHeight)
      else firstQualifiedHeight rt address blocks policyVersion rest

/-! ## Votes and penalties -/

/-- Keep the first vote of every submission. -/
def firstPerSubmission : List DurableVote → List DurableVote
  | [] => []
  | vote :: votes =>
    vote :: (firstPerSubmission votes).filter (·.submissionId ≠ vote.submissionId)

/-- `_accepted_votes` (lines 137–150). -/
def acceptedVotes (rt : Runtime) (store : ReviewerStore) (address : String) :
    List DurableVote :=
  firstPerSubmission <| (store.listDurableVotesForReviewer address).filter fun vote =>
    decide (vote.lifecycleState = .accepted) &&
      decide (NativeTransfer.normalizeWalletAddress rt (.str vote.voterAddress) = some address)

/-- `active_penalties`: penalties exist under the current rule version only. -/
def activePenalties (store : ReviewerStore) (address : String) (epoch : Int)
    (ruleVersion : Int) : List ReviewerPenalty :=
  if ruleVersion ≠ reputationRuleVersion then []
  else (store.listReviewerPenalties address).filter fun penalty =>
    decide (penalty.reputationRuleVersion = ruleVersion) &&
      decide (penalty.penaltyStartEpoch ≤ epoch ∧ epoch < penalty.penaltyEndEpoch)

/-- The `effective_status` of `effective_penalty`: a suspension prevails over a
cooldown. -/
def activeStatus (store : ReviewerStore) (address : String) (epoch : Int)
    (ruleVersion : Int) : Option ReviewerStatus :=
  let active := activePenalties store address epoch ruleVersion
  if active = [] then none
  else if active.any (·.penaltyStatus = .suspended) then some .suspended
  else some .cooldown

/-! ## The status at a reference -/

/-- What `status_at_reference` returns. -/
structure StatusAtReference where
  status : ReviewerStatus
  underlyingStatus : ReviewerStatus
  bootstrapEstablished : Bool
  qualificationEffectiveHeight : Option Int
  deriving DecidableEq

/-- The recorded transitions that apply at a reference. -/
def applicableTransitions (store : ReviewerStore) (address : String) (height policyVersion
    ruleVersion : Int) : List ReviewerTransition :=
  (store.listReviewerStateHistory address).filter fun item =>
    (match item.statusEffectiveHeight with
      | some effective => decide (effective ≤ height)
      | none => false) &&
    decide (item.reviewerPolicyVersion = policyVersion) &&
    decide (item.reputationRuleVersion = ruleVersion)

/-- The early return of lines 284–294: without a recorded penalty, a last recorded
cooldown or suspension stands. -/
def frozenStatus (store : ReviewerStore) (address : String) (height policyVersion
    ruleVersion : Int) : Option ReviewerStatus :=
  if store.listReviewerPenalties address ≠ [] then none
  else
    match (applicableTransitions store address height policyVersion ruleVersion).getLast? with
    | some item =>
      if item.toStatus = .cooldown ∨ item.toStatus = .suspended then some item.toStatus else none
    | none => none

/-- The votes that count towards promotion at `height` since the qualification. -/
def probationVotes (rt : Runtime) (store : ReviewerStore) (address : String) (height
    policyVersion : Int) (qualificationHeight : Option Int) : List DurableVote :=
  (acceptedVotes rt store address).filter fun vote =>
    decide (vote.reviewerPolicyVersion = some policyVersion) &&
    decide (vote.reviewerStatus = some .probationaryReviewer) &&
    (match vote.reviewerStatusEffectiveHeight, qualificationHeight with
      | some effective, some qualified =>
        decide (qualified ≤ effective ∧ effective ≤ height)
      | _, _ => false)

/-- The standing that the chain gives a wallet, before votes and penalties: a
bootstrap grant, no qualification, or a qualification from some height on. -/
inductive Standing where
  | bootstrap
  | unqualified
  | qualified (qualificationHeight : Option Int)

/-- Lines 295–329 of `status_at_reference`. -/
def standingAtReference (rt : Runtime) (address : String) (context : FinalizedContext)
    (head : FinalizedHead) (policyVersion : Int) : Py Standing := do
  if address ∈ (← bootstrapEstablishedReviewers policyVersion) then return .bootstrap
  let evidence ← qualification rt address context.blocks head policyVersion
  if ¬evidence.overallQualified then return .unqualified
  let heights := (List.range (context.height + 1).toNat).map fun n : Nat => (n : Int)
  return .qualified (← firstQualifiedHeight rt address context.blocks policyVersion heights)

/-- The probation has lasted long enough at `height`. -/
def durationMet (height policyVersion : Int) (qualificationHeight : Option Int) : Py Bool :=
  match qualificationHeight with
  | none => .ok false
  | some qualified => do
    return decide (probationMinDurationEpochs ≤
      (← reviewEpoch height policyVersion) - (← reviewEpoch qualified policyVersion))

/-- Lines 330–350: an established reviewer has served the probation and cast enough
counted votes; an active penalty overrides the standing. -/
def statusOfStanding (rt : Runtime) (store : ReviewerStore) (address : String) (height
    policyVersion ruleVersion : Int) (standing : Standing) : Py StatusAtReference := do
  let (underlying, bootstrapEstablished, qualificationHeight) ← match standing with
    | .bootstrap => pure (ReviewerStatus.establishedReviewer, true, some 0)
    | .unqualified => pure (ReviewerStatus.new, false, none)
    | .qualified qualificationHeight => do
      let met ← durationMet height policyVersion qualificationHeight
      let votes := probationVotes rt store address height policyVersion qualificationHeight
      pure (if met ∧ probationMinValidVotesForPromotion ≤ votes.length then
          ReviewerStatus.establishedReviewer
        else ReviewerStatus.probationaryReviewer, false, qualificationHeight)
  let epoch ← reviewEpoch height policyVersion
  return {
    status := (activeStatus store address epoch ruleVersion).getD underlying
    underlyingStatus := underlying
    bootstrapEstablished
    qualificationEffectiveHeight := qualificationHeight }

/-- `ReviewerEligibilityService.status_at_reference` at an explicit finalized
reference (lines 267–350). -/
def statusAtReference (rt : Runtime) (reviewerAddress : Value) (chain : List Dict)
    (head : FinalizedHead) (store : ReviewerStore) (policyVersion ruleVersion : Int) :
    Py StatusAtReference := do
  match NativeTransfer.normalizeWalletAddress rt reviewerAddress with
  | none => .error (.value "reviewer_address must be a valid Ethereum-style 0x address.")
  | some address =>
    let context ← finalizedContext rt chain head
    reputationRules ruleVersion
    match frozenStatus store address context.height policyVersion ruleVersion with
    | some status =>
      return {
        status, underlyingStatus := .new, bootstrapEstablished := false
        qualificationEffectiveHeight := none }
    | none =>
      let standing ← standingAtReference rt address context head policyVersion
      statusOfStanding rt store address context.height policyVersion ruleVersion standing

end ZoidbergChain
