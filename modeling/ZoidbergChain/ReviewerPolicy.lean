import ZoidbergChain.Python.Number

/-!
# Reviewer policy constants (milestone5_policy.py)

The versioned reviewer and reputation policies, reduced to the values that the
eligibility service reads. Only reviewer policy version 1 exists, and it grants no
bootstrap wallets.
-/

namespace ZoidbergChain

open Python

/-- `REVIEWER_STATUSES`. -/
inductive ReviewerStatus where
  | new
  | probationaryReviewer
  | establishedReviewer
  | cooldown
  | suspended
  deriving DecidableEq

def reviewerPolicyVersion : Int := 1
def legacyReputationRuleVersion : Int := 1
def reputationRuleVersion : Int := 2

def reviewEpochBlocks : Int := 5
def minWalletAgeEpochs : Int := 3
def creatorPathMinFinalizedMintedSubmissions : Nat := 2
def zoidPathMinFinalizedNativeTransactions : Nat := 5
def zoidPathMinActivitySpanEpochs : Int := 3
def mixedPathMinFinalizedMintedSubmissions : Nat := 1
def mixedPathMinFinalizedNativeTransactions : Nat := 2
def probationMinDurationEpochs : Int := 3
def probationMinValidVotesForPromotion : Nat := 10

/-- The fields of a reviewer policy that are read after it is looked up. -/
structure ReviewerPolicy where
  reviewEpochBlocks : Int
  bootstrapEstablishedReviewers : List String

/-- `reviewer_policy(version)` (milestone5_policy.py:213). -/
def reviewerPolicy (version : Int) : Py ReviewerPolicy := do
  require (version = reviewerPolicyVersion)
    (.value s!"Unsupported reviewer policy version: {version}")
  return { reviewEpochBlocks, bootstrapEstablishedReviewers := [] }

/-- `reputation_rules(version)`, for its check of the version. -/
def reputationRules (version : Int) : Py Unit :=
  require (version = legacyReputationRuleVersion ∨ version = reputationRuleVersion)
    (.value s!"Unsupported reputation rule version: {version}")

/-- `bootstrap_established_reviewers(version)`. -/
def bootstrapEstablishedReviewers (version : Int) : Py (List String) := do
  return (← reviewerPolicy version).bootstrapEstablishedReviewers

/-- `review_epoch(finalized_height, version)`: the epoch is the height over five. -/
def reviewEpoch (finalizedHeight version : Int) : Py Int := do
  let policy ← reviewerPolicy version
  require (0 ≤ finalizedHeight) (.value "finalized_height must be a non-negative integer.")
  return finalizedHeight / policy.reviewEpochBlocks

end ZoidbergChain
