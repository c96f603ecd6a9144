import ZoidbergChain.ReviewerEligibility
import ZoidbergChain.Scan.Windows

/-!
# Reviewer reputation (reviewer_reputation.py:357–497)

The offenses and penalties of reviewers, as `ReviewerReputationService` keeps them.

- `effectivePenalty` is the penalty that counts in an epoch; its status is the one that
  `statusAtReference` sees (`activeStatus_eq`).
- `applyVerifiedOffense` stores an offense that has been verified, once for each identity, and
  the penalty that its place among the stored offenses of its type calls for.

The offenses are verified: of the evidence only what the service reads is kept. No statement
depends on the order of the rows, which are listed as they were inserted.
-/

namespace ZoidbergChain

open Python

namespace Reputation

/-- `OFFENSE_TYPES`. -/
inductive OffenseType where
  | signedVoteEquivocation
  | creatorSelfVote
  | rateLimitAbuse
  | voteDuringCooldown
  | voteDuringSuspension
  deriving DecidableEq

/-- The type is one of `ESCALATING_OFFENSE_TYPES`. -/
def OffenseType.isEscalating : OffenseType → Bool
  | .signedVoteEquivocation | .creatorSelfVote | .rateLimitAbuse => true
  | .voteDuringCooldown | .voteDuringSuspension => false

/-- The cooldowns of the first offenses of a type (milestone5_policy.py:39–41). -/
def OffenseType.cooldownEpochs : OffenseType → List Int
  | .signedVoteEquivocation => [3, 10]
  | .creatorSelfVote => [1, 3]
  | .rateLimitAbuse => [1, 3]
  | .voteDuringCooldown | .voteDuringSuspension => []

/-- `SUSPENSION_EPOCHS`. -/
def suspensionEpochs : Int := 25

/-- A verified offense. -/
structure Offense where
  offenseId : String
  reviewerAddress : String
  offenseType : OffenseType
  reviewEpoch : Int
  referenceFinalizedHeight : Int
  referenceFinalizedBlockHash : String
  deriving DecidableEq

/-- A row of `reviewer_offense_records`. -/
structure OffenseRecord extends Offense where
  recordedStateBefore : ReviewerStatus
  resultingState : ReviewerStatus
  penaltyStartEpoch : Option Int
  penaltyEndEpoch : Option Int
  escalationCount : Nat
  deriving DecidableEq

/-- A row of `reviewer_penalties`, with the columns that only the service reads. -/
structure Penalty extends ReviewerPenalty where
  offenseId : String
  penaltyType : OffenseType
  penaltyDurationEpochs : Int
  referenceFinalizedBlockHash : String
  priorReviewerStatus : ReviewerStatus
  deriving DecidableEq

/-- The two tables. -/
structure Store where
  offenses : List OffenseRecord := []
  penalties : List Penalty := []
  deriving DecidableEq

/-! ## The penalty that counts -/

namespace Store

/-- `offenses(reviewer_address)`. -/
def offensesOf (s : Store) (address : String) : List OffenseRecord :=
  s.offenses.filter (·.reviewerAddress = address)

/-- `len(offenses(reviewer_address, offense_type))`. -/
def offenseCount (s : Store) (address : String) (type : OffenseType) : Nat :=
  (s.offensesOf address).countP (·.offenseType = type)

/-- `active_penalties`, under the current rule version. -/
def activePenalties (s : Store) (address : String) (epoch : Int) : List Penalty :=
  s.penalties.filter fun penalty =>
    decide (penalty.reviewerAddress = address) &&
      (decide (penalty.reputationRuleVersion = reputationRuleVersion) &&
        decide (penalty.penaltyStartEpoch ≤ epoch ∧ epoch < penalty.penaltyEndEpoch))

/-- `effective_penalty`: the chosen penalty, `effective_status` and `effective_end_epoch`. -/
structure Effective where
  penalty : Penalty
  effectiveStatus : ReviewerStatus
  effectiveEndEpoch : Int

instance : Preorder (Int ×ₗ String) := (Prod.Lex.instLinearOrder Int String).toPreorder

/-- The order that `max` picks the penalty by. -/
def penaltyKey (p : Penalty) : Int ×ₗ String := toLex (p.penaltyEndEpoch, p.penaltyId)

/-- `effective_penalty`. -/
def effectivePenalty (s : Store) (address : String) (epoch : Int) : Option Effective := do
  let active := s.activePenalties address epoch
  let effectiveStatus : ReviewerStatus :=
    if active.any (·.penaltyStatus = .suspended) then .suspended else .cooldown
  let penalty ← (active.filter (·.penaltyStatus = effectiveStatus)).argmax penaltyKey
  let effectiveEndEpoch ← (active.map (·.penaltyEndEpoch)).max?
  return { penalty, effectiveStatus, effectiveEndEpoch }

end Store

/-! ## One offense -/

/-- `_schedule`. -/
def schedule (type : OffenseType) (sequence : Nat) : ReviewerStatus × Int :=
  match type.cooldownEpochs[sequence - 1]? with
  | some duration => (.cooldown, duration)
  | none => (.suspended, suspensionEpochs)

/-- What an offense leads to. -/
structure Verdict where
  resultingState : ReviewerStatus
  startEpoch : Option Int := none
  endEpoch : Option Int := none
  sequence : Nat := 0
  penalty : Option Penalty := none

/-- The penalty of an offense, in force from the epoch of the offense on. -/
def penaltyOf (offense : Offense) (stateBefore status : ReviewerStatus) (duration endEpoch : Int) :
    Penalty where
  penaltyId := offense.offenseId
  offenseId := offense.offenseId
  reviewerAddress := offense.reviewerAddress
  penaltyType := offense.offenseType
  penaltyStatus := status
  penaltyStartEpoch := offense.reviewEpoch
  penaltyDurationEpochs := duration
  penaltyEndEpoch := endEpoch
  referenceFinalizedHeight := offense.referenceFinalizedHeight
  referenceFinalizedBlockHash := offense.referenceFinalizedBlockHash
  reputationRuleVersion := reputationRuleVersion
  priorReviewerStatus := stateBefore

/-- The branches of `apply_verified_offense` on the type, in the order of the source. -/
def verdict (s : Store) (offense : Offense) (stateBefore : ReviewerStatus) : Py Verdict :=
  let epoch := offense.reviewEpoch
  let current := s.effectivePenalty offense.reviewerAddress epoch
  let currentStatus := current.map (·.effectiveStatus)
  match offense.offenseType with
  | .voteDuringCooldown =>
    match current.filter (·.effectiveStatus = .cooldown) with
    | none => .error (.value "Cooldown-vote offense does not reference an active cooldown.")
    | some current =>
      let duration := current.penalty.penaltyDurationEpochs
      let endEpoch := max current.effectiveEndEpoch (epoch + duration)
      .ok { resultingState := .cooldown, startEpoch := some epoch, endEpoch := some endEpoch
            penalty := some (penaltyOf offense stateBefore .cooldown duration endEpoch) }
  | .voteDuringSuspension => do
    require (currentStatus = some .suspended)
      (.value "Suspension-vote offense does not reference an active suspension.")
    .ok { resultingState := .suspended }
  | type =>
    let sequence := s.offenseCount offense.reviewerAddress type + 1
    let (status, duration) := schedule type sequence
    -- a suspension in force at the epoch of the offense is neither reset nor shortened
    if currentStatus = some .suspended then .ok { resultingState := .suspended, sequence }
    else
      .ok { resultingState := if status = .suspended then .suspended else .cooldown
            startEpoch := some epoch, endEpoch := some (epoch + duration), sequence
            penalty := some (penaltyOf offense stateBefore status duration (epoch + duration)) }

/-- `record_reviewer_penalty`: a penalty of the same offense is a replay. -/
def recordReviewerPenalty (s : Store) (penalty : Penalty) : Py Store := do
  require (penalty.penaltyStatus = .cooldown ∨ penalty.penaltyStatus = .suspended)
    (.value "Penalty status must be COOLDOWN or SUSPENDED.")
  require (0 < penalty.penaltyDurationEpochs ∧ penalty.penaltyStartEpoch < penalty.penaltyEndEpoch)
    (.value "Penalty duration must end after its start epoch.")
  if s.penalties.any fun p => p.penaltyId = penalty.penaltyId || p.offenseId = penalty.offenseId
  then .ok s
  else .ok { s with penalties := s.penalties ++ [penalty] }

/-- What the service returns. -/
structure Outcome where
  offense : OffenseRecord
  replay : Bool := false
  penalty : Option Penalty := none

/-- `apply_verified_offense`. -/
def applyVerifiedOffense (s : Store) (offense : Offense) (stateBefore : ReviewerStatus) :
    Py (Store × Outcome) :=
  match (s.offensesOf offense.reviewerAddress).find? (·.offenseId = offense.offenseId) with
  | some existing => .ok (s, { offense := existing, replay := true })
  | none => do
    let v ← verdict s offense stateBefore
    let record : OffenseRecord :=
      { offense with
        recordedStateBefore := stateBefore, resultingState := v.resultingState
        penaltyStartEpoch := v.startEpoch, penaltyEndEpoch := v.endEpoch
        escalationCount := v.sequence }
    -- `record_reviewer_offense` looks for the identity among all reviewers
    if s.offenses.any (·.offenseId = offense.offenseId) then
      .ok (s, { offense := record, replay := true })
    else do
      let s : Store := { s with offenses := s.offenses ++ [record] }
      match v.penalty with
      | none => .ok (s, { offense := record })
      | some penalty => do
        let s ← recordReviewerPenalty s penalty
        .ok (s, { offense := record, penalty := some penalty })

end Reputation

end ZoidbergChain
