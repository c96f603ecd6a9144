import ZoidbergChain.DualReview
import ZoidbergChain.Host
import ZoidbergChain.ReviewerPolicy
import ZoidbergChain.Wallet

/-!
# Durable votes and the epoch quota (storage.py)

The table `durable_vote_records` and the two writes into it.

- `normalizedVoteRecord` makes the row of a vote.
- `insertDurableVoteRecord` stores a row; an accepted row that breaks a uniqueness rule is
  stored as a rejected one, unless the vote is there already.
- `recordDurableVoteWithEpochLimit` counts the submissions of the voter in the epoch first.
- `run` is the table after some calls, one that raises being rolled back.
-/

namespace ZoidbergChain.VoteQuota

open Python DualReview

/-! ## The row of a vote -/

/-- The texts that the identity of a signed vote is computed from. -/
structure SignedVote where
  walletAddress : String
  submissionId : String
  contentHash : String
  dimension : String
  choice : Value
  nonce : String
  issuedAt : String
  expiresAt : String
  networkId : String
  signature : String
  signatureScheme : String

/-- The hashes and the clock that a row is made with. -/
structure VoteHost extends Host where
  /-- `dual_review.vote_identity`. -/
  dualVoteIdentity : SignedVote → Py String
  /-- `calculate_signed_vote_identity`. -/
  signedVoteIdentity : SignedVote → Py String
  /-- `_canonical_record`. -/
  canonicalRecord : Value → String
  /-- `s.upper()`. -/
  upper : String → String
  /-- `_utc_now_iso()`. -/
  now : String

inductive IdentityStatus where
  | canonical
  | legacyUnverifiable
  deriving DecidableEq

inductive LifecycleState where
  | accepted
  | rejected
  deriving DecidableEq

/-- A row before it has a lifecycle state. A vote with an identity has it as its evidence
id. -/
structure VoteRecord where
  evidenceId : String
  voteIdentity : Option String
  evidenceId_of_voteIdentity : ∀ identity, voteIdentity = some identity → evidenceId = identity
  identityStatus : IdentityStatus
  submissionId : String
  contentHash : Option String
  voterAddress : String
  voteChoice : Value
  dimension : String
  rejectionReason : Option String
  signedPayloadVersion : Value
  protocolVersion : Value
  networkId : Option String
  nonce : Option String
  issuedAt : Option String
  expiresAt : Option String
  signature : Option String
  signatureScheme : Option String
  signedMessage : Value
  signedMessageHash : Value
  reviewerPolicyVersion : Value
  reputationRuleVersion : Value
  reviewerStatus : Value
  reviewerEligible : Value
  reviewerStatusEffectiveHeight : Value
  reviewerStatusReferenceBlockHash : Value
  observedAt : String
  sourceRecordJson : String

section Normalize

variable (h : VoteHost)

/-- `str(value or "").strip() or None`. -/
def optionalText (value : Value) : Option String :=
  let text := value.trimmed h.toRuntime
  if text = "" then none else some text

/-- `str(value or "").strip().lower() or None`. -/
def optionalLowered (value : Value) : Option String :=
  let text := h.lower (value.trimmed h.toRuntime)
  if text = "" then none else some text

/-- The voter: a canonical address where there is one, else the text as it is. -/
def voterAddress (vote : Dict) : String :=
  let voter := voterOf vote
  (NativeTransfer.normalizeWalletAddress h.toRuntime voter).getD (voter.trimmed h.toRuntime)

/-- `vote.get("vote_version") == REVIEW_VOTE_VERSION`. -/
def isDualVote (vote : Dict) : Bool := (vote.get "vote_version").pyEq (.int reviewVoteVersion)

/-- The dimension of a vote, after its check. -/
def checkedDimension (vote : Dict) : Py String :=
  let dimension := vote.getD "dimension" (.str originality)
  if isDualVote vote then
    match dimension with
    | .str d => do
      validateChoice d (vote.get "vote_type")
      .ok d
    | _ => .error (.value "Unknown review dimension.")
  else if dimension.pyEq (.str originality) then .ok originality
  else .error { exc := .storageCorruptionError
                message := "Legacy votes must remain originality-only." }

/-- The texts of a vote that is completely signed. -/
def signedVote (vote : Dict) (dimension : String) : Option SignedVote := do
  .some {
    walletAddress := voterAddress h vote
    submissionId := (vote.get "submission_id").trimmed h.toRuntime
    contentHash := ← optionalLowered h (vote.get "content_hash")
    dimension := dimension
    choice := vote.get "vote_type"
    signature := ← optionalText h ((vote.get "vote_signature").orElse (vote.get "signature"))
    signatureScheme := ← optionalLowered h (vote.get "signature_scheme")
    nonce := ← optionalText h ((vote.get "vote_nonce").orElse (vote.get "nonce"))
    issuedAt := ← optionalText h ((vote.get "vote_issued_at").orElse (vote.get "issued_at"))
    expiresAt := ← optionalText h ((vote.get "vote_expires_at").orElse (vote.get "expires_at"))
    networkId := ← optionalLowered h (vote.get "network_id") }

/-- The identity of a vote: the calculated one, which a stated one must equal. -/
def checkedIdentity (vote : Dict) (dimension : String) : Py (Option String) :=
  let stated := optionalLowered h (vote.get "vote_identity")
  match signedVote h vote dimension with
  | none => do
    require (stated = none) { exc := .storageCorruptionError, message :=
      "Canonical vote_identity requires the complete signed Protocol v1 vote payload." }
    .ok none
  | some signed => do
    let calculated ←
      if isDualVote vote then h.dualVoteIdentity signed else h.signedVoteIdentity signed
    require (stated = none ∨ stated = some calculated) { exc := .storageCorruptionError, message :=
      "Stored vote_identity does not match the canonical signed vote." }
    .ok (some calculated)

/-- `reviewer_policy(version)`, for its check of the version. -/
def checkReviewerPolicy : Value → Py Unit
  | .int n => do
    let _ ← reviewerPolicy n
    .ok ()
  | _ => .error (.value "reviewer policy version must be an integer.")

/-- `reputation_rules(version)`, for its check of the version. -/
def checkReputationRules : Value → Py Unit
  | .int n => reputationRules n
  | _ => .error (.value "reputation rule version must be an integer.")

/-- `validate_reviewer_status`. -/
def validateReviewerStatus (status : Value) : Py Value :=
  let normalized := h.upper (status.trimmed h.toRuntime)
  if normalized ∈ ["NEW", "PROBATIONARY_REVIEWER", "ESTABLISHED_REVIEWER", "COOLDOWN",
      "SUSPENDED"] then .ok (.str normalized)
  else .error (.value s!"Unsupported reviewer status: {h.repr status}")

/-- `_canonical_reference`. -/
def canonicalReference (height blockHash : Value) : Py (Value × Value) :=
  if height = .null ∧ (blockHash = .null ∨ blockHash = .str "") then .ok (.null, .null)
  else
    match height with
    | .int n => do
      require (0 ≤ n) (.value "status_effective_height must be a non-negative integer.")
      let normalized := h.lower (blockHash.trimmed h.toRuntime)
      require (IsHex64 normalized) (.value
        "status_reference_block_hash must be a 64-character lowercase hexadecimal string.")
      .ok (.int n, .str normalized)
    | _ => .error (.value "status_effective_height must be a non-negative integer.")

/-- The reviewer snapshot of a vote. -/
structure Snapshot where
  status : Value
  height : Value
  blockHash : Value

/-- The checks of the reviewer snapshot, which is recorded as a whole or not at all. -/
def checkedSnapshot (vote : Dict) : Py Snapshot :=
  let policyVersion := vote.get "reviewer_policy_version"
  let ruleVersion := vote.get "reputation_rule_version"
  let status := vote.get "reviewer_status"
  let eligible := vote.get "reviewer_eligible"
  let height := vote.get "reviewer_status_effective_height"
  let blockHash := vote.get "reviewer_status_reference_block_hash"
  if policyVersion = .null ∧ ruleVersion = .null ∧ status = .null then
    .ok { status := .null, height, blockHash }
  else do
    require (policyVersion ≠ .null ∧ ruleVersion ≠ .null ∧ status ≠ .null) (.value
      ("Reviewer policy version, reputation rule version, and reviewer status must be " ++
        "recorded together."))
    checkReviewerPolicy policyVersion
    checkReputationRules ruleVersion
    let normalized ← validateReviewerStatus h status
    let reference ← canonicalReference h height blockHash
    require (eligible = .null ∨ eligible = .bool true ∨ eligible = .bool false) (.value
      "Reviewer eligibility result must be a boolean when recorded.")
    .ok { status := normalized, height := reference.1, blockHash := reference.2 }

/-- The evidence id of a vote. -/
def evidenceIdOf (vote : Dict) (identity : Option String) : String :=
  identity.getD ("legacy:" ++ h.sha256Hex (encodeUtf8 (h.canonicalRecord
    (.dict [("legacy_index", .null), ("record", .dict vote)]))))

/-- `_normalized_vote_record`. -/
def normalizedVoteRecord (vote : Dict) : Py VoteRecord := do
  let dimension ← checkedDimension vote
  let identity ← checkedIdentity h vote dimension
  let snapshot ← checkedSnapshot h vote
  .ok {
    evidenceId := evidenceIdOf h vote identity
    voteIdentity := identity
    evidenceId_of_voteIdentity := fun _ hidentity => by rw [hidentity]; rfl
    identityStatus := if identity = none then .legacyUnverifiable else .canonical
    submissionId := (vote.get "submission_id").trimmed h.toRuntime
    contentHash := optionalLowered h (vote.get "content_hash")
    voterAddress := voterAddress h vote
    voteChoice := vote.get "vote_type"
    dimension := dimension
    rejectionReason := none
    signedPayloadVersion := vote.get "vote_version"
    protocolVersion := vote.get "protocol_version"
    networkId := optionalLowered h (vote.get "network_id")
    nonce := optionalText h ((vote.get "vote_nonce").orElse (vote.get "nonce"))
    issuedAt := optionalText h ((vote.get "vote_issued_at").orElse (vote.get "issued_at"))
    expiresAt := optionalText h ((vote.get "vote_expires_at").orElse (vote.get "expires_at"))
    signature := optionalText h ((vote.get "vote_signature").orElse (vote.get "signature"))
    signatureScheme := optionalLowered h (vote.get "signature_scheme")
    signedMessage := vote.get "vote_message"
    signedMessageHash := vote.get "signed_message_hash"
    reviewerPolicyVersion := vote.get "reviewer_policy_version"
    reputationRuleVersion := vote.get "reputation_rule_version"
    reviewerStatus := snapshot.status
    reviewerEligible := vote.get "reviewer_eligible"
    reviewerStatusEffectiveHeight := snapshot.height
    reviewerStatusReferenceBlockHash := snapshot.blockHash
    observedAt :=
      ((vote.get "created_at").orElse (.str h.now)).text h.toRuntime
    sourceRecordJson := h.canonicalRecord (.dict vote) }

end Normalize

/-! ## The table -/

/-- A row of `durable_vote_records`. -/
structure Row where
  record : VoteRecord
  lifecycleState : LifecycleState

/-- The table, in the order of its rows. -/
abbrev VoteTable := List Row

/-- What the table `durable_vote_records` does with the values of one row. -/
structure Columns where
  /-- The exception that SQLite raises for a row because of its own values: a value that cannot
  be bound, or a `CHECK` that fails. -/
  columnError : VoteRecord → Option PyError

/-- The slot of the index `one_accepted_vote_per_submission_wallet`. -/
def VoteRecord.slot (r : VoteRecord) : String × String × String :=
  (r.submissionId, r.voterAddress, r.dimension)

/-- Two rows that the table cannot both hold: the primary key, the unique identity (`NULL` is
no identity) and the partial index on the accepted rows. -/
def Clashes (a b : Row) : Prop :=
  a.record.evidenceId = b.record.evidenceId ∨
  (a.record.voteIdentity ≠ none ∧ a.record.voteIdentity = b.record.voteIdentity) ∨
  (a.lifecycleState = .accepted ∧ b.lifecycleState = .accepted ∧ a.record.slot = b.record.slot)

instance (a b : Row) : Decidable (Clashes a b) := inferInstanceAs (Decidable (_ ∨ _ ∨ _))

/-- `INSERT INTO durable_vote_records`. -/
def insertRow (db : Columns) (table : VoteTable) (row : Row) : Py VoteTable :=
  match db.columnError row.record with
  | some e => .error e
  | none =>
    if ∃ other ∈ table, Clashes other row then
      .error { exc := .integrityError
               message := "UNIQUE constraint failed: durable_vote_records" }
    else .ok (table ++ [row])

/-- A row with the evidence id or the identity of a vote. -/
def VoteRecord.Matches (r : VoteRecord) (row : Row) : Prop :=
  row.record.evidenceId = r.evidenceId ∨
    (r.voteIdentity ≠ none ∧ row.record.voteIdentity = r.voteIdentity)

instance (r : VoteRecord) (row : Row) : Decidable (r.Matches row) :=
  inferInstanceAs (Decidable (_ ∨ _))

/-- `SELECT ... WHERE evidence_id = ? OR vote_identity = ?`. -/
def existing (table : VoteTable) (r : VoteRecord) : Option Row :=
  table.find? fun row => r.Matches row

/-- What a write returns. -/
structure Outcome where
  evidenceId : String
  voteIdentity : Option String := none
  lifecycleState : LifecycleState
  rejectionReason : Option String := none
  replay : Bool
  deriving DecidableEq

/-- The outcome of a write that finds the vote in the table. -/
def replayOf (row : Row) : Outcome :=
  { evidenceId := row.record.evidenceId, lifecycleState := row.lifecycleState, replay := true }

/-- The outcome of a write that stores a row. -/
def storedAs (row : Row) : Outcome :=
  { evidenceId := row.record.evidenceId
    voteIdentity := row.record.voteIdentity
    lifecycleState := row.lifecycleState
    rejectionReason := row.record.rejectionReason
    replay := false }

/-- `values.get("rejection_reason") or "conflicting_counted_vote"`. -/
def VoteRecord.conflicting (r : VoteRecord) : VoteRecord :=
  { r with
    rejectionReason := some ((r.rejectionReason.filter (· ≠ "")).getD "conflicting_counted_vote") }

/-- `_insert_durable_vote_record`. -/
def insertDurableVoteRecord (db : Columns) (table : VoteTable) (r : VoteRecord)
    (lifecycleState : LifecycleState) : Py (Outcome × VoteTable) :=
  let row : Row := { record := r, lifecycleState }
  match insertRow db table row with
  | .ok table' => .ok (storedAs row, table')
  | .error e =>
    if e.exc ≠ .integrityError then .error e
    else
      match existing table r with
      | some found => .ok (replayOf found, table)
      | none =>
        if lifecycleState ≠ .accepted then .error e
        else do
          let rejected : Row := { record := r.conflicting, lifecycleState := .rejected }
          let table' ← insertRow db table rejected
          .ok (storedAs rejected, table')

/-- `record_durable_vote`. -/
def recordDurableVote (h : VoteHost) (db : Columns) (table : VoteTable) (vote : Dict)
    (lifecycleState : LifecycleState) (rejectionReason : Option String) :
    Py (Outcome × VoteTable) := do
  let r ← normalizedVoteRecord h vote
  insertDurableVoteRecord db table { r with rejectionReason } lifecycleState

/-- `reviewer_status_effective_height BETWEEN ? AND ?`. The rows that are asked are accepted,
and have a whole number there. -/
def between (low high : Int) : Value → Bool
  | .int n => low ≤ n && n ≤ high
  | _ => false

/-- The accepted rows of a voter in a window of heights. -/
def acceptedIn (table : VoteTable) (voter : String) (low high : Int) : List Row :=
  table.filter fun row => row.record.voterAddress = voter ∧ row.lifecycleState = .accepted ∧
    between low high row.record.reviewerStatusEffectiveHeight = true

/-- `SELECT COUNT(DISTINCT submission_id)`: the submissions of a voter in the window, under
one policy version. -/
def used (table : VoteTable) (r : VoteRecord) (low high : Int) : Nat :=
  (((acceptedIn table r.voterAddress low high).filter fun row =>
    row.record.reviewerPolicyVersion = r.reviewerPolicyVersion).map
      fun row => row.record.submissionId).dedup.length

/-- The submission of a vote is counted in the window already. -/
def sameSubmission (table : VoteTable) (r : VoteRecord) (low high : Int) : Bool :=
  (acceptedIn table r.voterAddress low high).any fun row =>
    row.record.submissionId = r.submissionId

/-- `maximum_votes`, after its check. -/
def checkedMaximum : Value → Py Int
  | .int n => do
    require (0 < n) (.value "maximum_votes must be a positive integer.")
    .ok n
  | _ => .error (.value "maximum_votes must be a positive integer.")

/-- The rejection reason of a vote over the quota. -/
def limitReached : String := "review_epoch_vote_limit_reached"

/-- `record_durable_vote_with_epoch_limit`. -/
def recordDurableVoteWithEpochLimit (h : VoteHost) (db : Columns) (table : VoteTable) (vote : Dict)
    (maximumVotes : Value) (epochStartHeight epochEndHeight : Int) : Py (Outcome × VoteTable) := do
  let maximum ← checkedMaximum maximumVotes
  let r ← normalizedVoteRecord h vote
  require (r.reviewerPolicyVersion ≠ .null ∧ r.reviewerStatusEffectiveHeight ≠ .null)
    (.value "Epoch-limited votes require a complete reviewer policy snapshot.")
  match existing table r with
  | some found => .ok (replayOf found, table)
  | none =>
    if maximum ≤ used table r epochStartHeight epochEndHeight ∧
        sameSubmission table r epochStartHeight epochEndHeight = false then
      insertDurableVoteRecord db table { r with rejectionReason := some limitReached } .rejected
    else insertDurableVoteRecord db table r .accepted

/-! ## Calls -/

/-- A call of one of the two writes. -/
inductive Call where
  | limited (vote : Dict) (maximumVotes : Value) (epochStartHeight epochEndHeight : Int)
  | rejected (vote : Dict) (rejectionReason : Option String)

/-- The vote of a call. -/
def Call.vote : Call → Dict
  | .limited vote .. => vote
  | .rejected vote _ => vote

/-- One call. -/
def perform (h : VoteHost) (db : Columns) (table : VoteTable) : Call → Py (Outcome × VoteTable)
  | .limited vote maximum low high =>
    recordDurableVoteWithEpochLimit h db table vote maximum low high
  | .rejected vote reason => recordDurableVote h db table vote .rejected reason

/-- The table after a call: one that raises is rolled back. -/
def after (h : VoteHost) (db : Columns) (table : VoteTable) (call : Call) : VoteTable :=
  match perform h db table call with
  | .ok (_, table') => table'
  | .error _ => table

/-- The table after some calls. -/
def run (h : VoteHost) (db : Columns) (calls : List Call) : VoteTable := calls.foldl (after h db) []

/-- A limited call is about one voter and policy version, and passes the window of the epoch of
its vote. -/
def Call.Fits (h : VoteHost) (voter : String) (policyVersion : Value) : Call → Prop
  | .limited vote _ low high => ∀ r, normalizedVoteRecord h vote = .ok r →
    r.voterAddress = voter ∧
    (r.reviewerPolicyVersion ≠ .null → r.reviewerPolicyVersion = policyVersion) ∧
    ∀ n, r.reviewerStatusEffectiveHeight = .int n →
      low = n / reviewEpochBlocks * reviewEpochBlocks ∧ high = low + reviewEpochBlocks - 1
  | .rejected _ _ => True

/-- The maximum that a call passes for an epoch. -/
def Call.maximumFor (epoch : Int) : Call → Nat
  | .limited _ maximum low _ =>
    if low = epoch * reviewEpochBlocks then
      match maximum with
      | .int n => n.toNat
      | _ => 0
    else 0
  | .rejected _ _ => 0

/-- The largest maximum that some calls pass for an epoch. -/
def maximumPassed (epoch : Int) (calls : List Call) : Nat :=
  (calls.map (Call.maximumFor epoch)).foldr max 0

/-- The distinct submissions with an accepted row of a voter in an epoch. -/
def countedSubmissions (table : VoteTable) (voter : String) (epoch : Int) : List String :=
  ((acceptedIn table voter (epoch * reviewEpochBlocks)
    (epoch * reviewEpochBlocks + reviewEpochBlocks - 1)).map
      fun row => row.record.submissionId).dedup

end ZoidbergChain.VoteQuota
