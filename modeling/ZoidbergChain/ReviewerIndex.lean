import ZoidbergChain.Protocol
import ZoidbergChain.Python.Table
import ZoidbergChain.ReviewerEligibility

/-!
# The reviewer index (services/report_reviewer_index.py)

Community reports are verified without a scan of the chain. For every finalized
reference the node keeps a snapshot with the height at which each wallet first
qualified as a reviewer.

- `qualificationSnapshot` traverses the ancestry once. It keeps a `WalletState` per
  wallet, with the height at which each of the three paths became ready.
- `statusAtReferenceIndexed` is `status_at_reference` with an indexed height in
  place of the chain.
- `getReportReviewerStatusAtReference` reads the snapshot of a reference.
-/

namespace ZoidbergChain

open Python

namespace ReportReviewerIndex

/-- `INDEX_VERSION`. -/
def indexVersion : Int := 1

/-- `reference_key`. -/
def referenceKey (rt : Runtime) (height : Int) (blockHash : String) : String :=
  s!"{height}:{rt.lower (strip blockHash)}"

/-! ## One wallet -/

/-- What the traversal remembers of a wallet. `minted` and `native` are sets. -/
structure WalletState where
  origin : Int
  minted : List String
  native : List String
  creatorReady : Option Int
  mixedReady : Option Int
  zoidReady : Option Int
  firstNativeEpoch : Option Int
  lastNativeEpoch : Option Int
  deriving DecidableEq

/-- The state of a wallet that is first seen at a height. -/
def WalletState.seen (atHeight : Int) : WalletState where
  origin := atHeight
  minted := []
  native := []
  creatorReady := none
  mixedReady := none
  zoidReady := none
  firstNativeEpoch := none
  lastNativeEpoch := none

namespace WalletState

/-- `state["minted"].add(submission_id)`. -/
def mint (state : WalletState) (submissionId : String) : WalletState :=
  { state with minted :=
      if submissionId ∈ state.minted then state.minted else state.minted ++ [submissionId] }

/-- A transfer that is not yet in `state["native"]` is added, with its epoch. -/
def transfer (state : WalletState) (txId : String) (atHeight : Int) : WalletState :=
  if txId ∈ state.native then state
  else
    let epoch := atHeight / reviewEpochBlocks
    { state with
      native := state.native ++ [txId]
      firstNativeEpoch := state.firstNativeEpoch.or (some epoch)
      lastNativeEpoch := some epoch }

/-- `len(state["minted"]) >= CREATOR_PATH_MIN_FINALIZED_MINTED_SUBMISSIONS`. -/
def creatorOpen (state : WalletState) : Bool :=
  decide (creatorPathMinFinalizedMintedSubmissions ≤ state.minted.length)

/-- The test of the mixed path. -/
def mixedOpen (state : WalletState) : Bool :=
  decide (mixedPathMinFinalizedMintedSubmissions ≤ state.minted.length) &&
    decide (mixedPathMinFinalizedNativeTransactions ≤ state.native.length)

/-- The test of the activity path. A counted transfer has set both epochs. -/
def zoidOpen (state : WalletState) : Bool :=
  decide (zoidPathMinFinalizedNativeTransactions ≤ state.native.length) &&
    match state.lastNativeEpoch, state.firstNativeEpoch with
    | some last, some first => decide (zoidPathMinActivitySpanEpochs ≤ last - first)
    | _, _ => false

/-- `if state[key] is None and open: state[key] = at_height`. -/
def markReady (ready : Option Int) (isOpen : Bool) (atHeight : Int) : Option Int :=
  if ready.isNone ∧ isOpen then some atHeight else ready

/-- The three readiness tests after a block that touched the wallet. -/
def noteReady (state : WalletState) (atHeight : Int) : WalletState :=
  { state with
    creatorReady := markReady state.creatorReady state.creatorOpen atHeight
    mixedReady := markReady state.mixedReady state.mixedOpen atHeight
    zoidReady := markReady state.zoidReady state.zoidOpen atHeight }

/-- `candidates`: a path opens at its readiness, but not before the wallet is old
enough. -/
def candidates (state : WalletState) : List Int :=
  let ageHeight := state.origin + minWalletAgeEpochs * reviewEpochBlocks
  [state.creatorReady, state.mixedReady, state.zoidReady].reduceOption.map (max ageHeight)

/-- The recorded height of a wallet at a reference. -/
def qualifiedHeight (state : WalletState) (height : Int) : Option Int :=
  state.candidates.min?.filter (· ≤ height)

end WalletState

/-! ## The traversal -/

/-- The traversal inside a block: `activity` and the wallets in `touched`. -/
structure Progress where
  activity : Table String WalletState
  touched : List String

namespace Progress

/-- Update the state of a wallet, after `wallet_state`, and touch the wallet. -/
def update (p : Progress) (address : String) (atHeight : Int)
    (f : WalletState → WalletState) : Progress where
  activity := p.activity.set address (f ((p.activity.get? address).getD (.seen atHeight)))
  touched := p.touched.insert address

end Progress

/-- `{sender, recipient} - {None}`. -/
def participants (sender recipient : Option String) : List String :=
  [sender, recipient].reduceOption.dedup

/-- One native transaction of a block. -/
def indexTransaction (rt : Runtime) (atHeight : Int) (p : Progress) (transaction : Value) :
    Progress :=
  match transaction with
  | .dict tx =>
    let sender := NativeTransfer.normalizeWalletAddress rt (Dict.get tx "from_address")
    let recipient := NativeTransfer.normalizeWalletAddress rt (Dict.get tx "to_address")
    let txId := rt.lower (Value.trimmed rt (Dict.get tx "tx_id"))
    (participants sender recipient).foldl (fun p address =>
      p.update address atHeight fun state =>
        if sender ≠ recipient ∧ txId ≠ "" then state.transfer txId atHeight else state) p
  | _ => p

/-- The creator of a block. -/
def indexCreator (rt : Runtime) (atHeight : Int) (p : Progress) (block : Dict) : Progress :=
  let submissionId := Value.trimmed rt (block.get "submission_id")
  match NativeTransfer.normalizeWalletAddress rt (block.get "creator_wallet") with
  | some creator =>
    if submissionId ≠ "" then p.update creator atHeight (·.mint submissionId) else p
  | none => p

/-- `for address in touched`: the readiness tests of a block. -/
def noteTouched (atHeight : Int) (p : Progress) : Table String WalletState :=
  p.touched.foldl (fun activity address =>
    match activity.get? address with
    | some state => activity.set address (state.noteReady atHeight)
    | none => activity) p.activity

/-- One block of the ancestry. -/
def indexBlock (rt : Runtime) (activity : Table String WalletState) (block : Dict) :
    Py (Table String WalletState) := do
  let atHeight ← blockIndex block
  let transactions ← (block.get "native_transactions").listOrEmpty
  let p := indexCreator rt atHeight { activity, touched := [] } block
  return noteTouched atHeight (transactions.foldl (indexTransaction rt atHeight) p)

/-! ## The snapshot -/

/-- What `qualification_snapshot` returns. -/
structure Snapshot where
  version : Int
  reviewerPolicyVersion : Int
  height : Int
  blockHash : String
  qualificationHeights : Table String Int
  qualificationEntryDigests : Table String String
  digest : String
  deriving DecidableEq

/-- `qualification_entry_digest`. -/
def qualificationEntryDigest (h : Host) (height : Int) (blockHash wallet : String)
    (qualifiedHeight : Int) : Py String :=
  canonicalHash h (.dict [("index_version", .int indexVersion),
    ("reviewer_policy_version", .int reviewerPolicyVersion), ("height", .int height),
    ("block_hash", .str (h.lower blockHash)), ("wallet", .str wallet),
    ("qualification_height", .int qualifiedHeight)])

/-- The payload whose hash is the digest of the snapshot. -/
def snapshotPayload (h : Host) (height : Int) (blockHash : String)
    (qualifications : Table String Int) (digests : Table String String) : Value :=
  .dict [("version", .int indexVersion),
    ("reviewer_policy_version", .int reviewerPolicyVersion), ("height", .int height),
    ("block_hash", .str (h.lower blockHash)),
    ("qualification_heights", .dict (qualifications.map fun e => (e.1, .int e.2))),
    ("qualification_entry_digests", .dict (digests.map fun e => (e.1, .str e.2)))]

/-- The recorded heights: the wallets whose least candidate is within the reference. -/
def qualificationHeights (activity : Table String WalletState) (height : Int) :
    Table String Int :=
  activity.filterMap fun e => (e.2.qualifiedHeight height).map (e.1, ·)

/-- The reference is the height of a block and its hash (lines 39–40). -/
def onChain (rt : Runtime) (chain : List Dict) (height : Int) (blockHash : String) : Bool :=
  decide (0 ≤ height) &&
    match chain[height.toNat]? with
    | some block => rt.lower ((block.get "hash").text rt) == rt.lower blockHash
    | none => false

/-- `qualification_snapshot`. -/
def qualificationSnapshot (h : Host) (chain : List Dict) (height : Int) (blockHash : String) :
    Py Snapshot := do
  require (onChain h.toRuntime chain height blockHash)
    (.value "Report eligibility index reference is not canonical.")
  let activity ← (chain.take (height.toNat + 1)).foldlM (indexBlock h.toRuntime) []
  let qualifications := qualificationHeights activity height
  let digests ← qualifications.mapM fun e => do
    return (e.1, ← qualificationEntryDigest h height blockHash e.1 e.2)
  let digest ← canonicalHash h (snapshotPayload h height blockHash qualifications digests)
  return {
    version := indexVersion
    reviewerPolicyVersion
    height
    blockHash := h.lower blockHash
    qualificationHeights := qualifications
    qualificationEntryDigests := digests
    digest }

end ReportReviewerIndex

/-! ## The status from an indexed height -/

/-- Lines 296–329 of `status_at_reference` with an indexed qualification height. -/
def standingAtIndex (address : String) (policyVersion : Int) (indexed : Option Int) :
    Py Standing := do
  if address ∈ (← bootstrapEstablishedReviewers policyVersion) then return .bootstrap
  match indexed with
  | none => return .unqualified
  | some qualificationHeight => return .qualified (some qualificationHeight)

/-- `ReviewerEligibilityService.status_at_reference` with `indexed_qualification_height`. -/
def statusAtReferenceIndexed (rt : Runtime) (reviewerAddress : Value) (head : FinalizedHead)
    (store : ReviewerStore) (policyVersion ruleVersion : Int) (indexed : Option Int) :
    Py StatusAtReference := do
  match NativeTransfer.normalizeWalletAddress rt reviewerAddress with
  | none => .error (.value "reviewer_address must be a valid Ethereum-style 0x address.")
  | some address =>
    let height := head.blockHeight
    reputationRules ruleVersion
    match frozenStatus store address height policyVersion ruleVersion with
    | some status =>
      return {
        status, underlyingStatus := .new, bootstrapEstablished := false
        qualificationEffectiveHeight := none }
    | none =>
      let standing ← standingAtIndex address policyVersion indexed
      statusOfStanding rt store address height policyVersion ruleVersion standing

/-- `get_report_reviewer_status_at_reference` (blockchain.py:2695–2717), with the index
as a table of snapshots. -/
def getReportReviewerStatusAtReference (h : Host) (chain : List Dict)
    (index : Table String ReportReviewerIndex.Snapshot) (store : ReviewerStore)
    (reviewerAddress : Value) (height : Int) (blockHash : Value) : Py ReviewerStatus := do
  require (0 ≤ height ∧ height < chain.length)
    (.value "Reviewer reference is not a finalized canonical block.")
  let normalizedHash := h.lower (blockHash.trimmed h.toRuntime)
  let stale := PyError.value "Finalized reviewer qualification index is missing or stale."
  let snapshot ← orRaise (index.get? (ReportReviewerIndex.referenceKey h.toRuntime height
    normalizedHash)) stale
  let block ← orRaise chain[height.toNat]? stale
  require (h.lower ((block.get "hash").text h.toRuntime) = normalizedHash ∧
    snapshot.height = height ∧ snapshot.blockHash = normalizedHash) stale
  let wallet ← orRaise (NativeTransfer.normalizeWalletAddress h.toRuntime reviewerAddress)
    (.value "Reporter wallet is invalid.")
  let qualificationHeight := snapshot.qualificationHeights.get? wallet
  match qualificationHeight with
  | some qualified =>
    let digest ← ReportReviewerIndex.qualificationEntryDigest h height normalizedHash wallet
      qualified
    require (snapshot.qualificationEntryDigests.get? wallet = some digest)
      (.value "Finalized reviewer qualification index entry is corrupt.")
  | none => pure ()
  let result ← statusAtReferenceIndexed h.toRuntime (.str wallet)
    { blockHeight := height, blockHash := normalizedHash } store reviewerPolicyVersion
    reputationRuleVersion qualificationHeight
  return result.status

end ZoidbergChain
