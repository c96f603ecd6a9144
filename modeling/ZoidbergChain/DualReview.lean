import ZoidbergChain.Protocol
import ZoidbergChain.Python.Control
import ZoidbergChain.Python.Table
import ZoidbergChain.ReviewerPolicy
import ZoidbergChain.Scan.Repeats
import ZoidbergChain.Wallet

/-!
# Dual community review (dual_review.py)

A submission is reviewed in two dimensions, originality and admissibility. A vote is
the dictionary that the node stores.

- `tally` counts the votes of one dimension, one for each wallet.
- `combinedReview` puts the two tallies together.
- `tally_absorbs`: a vote that is listed twice counts once.
-/

namespace ZoidbergChain.DualReview

open Python

def reviewPolicyVersion : Int := 1
def reviewVoteVersion : Int := 2
def originality : String := "originality"
def admissibility : String := "admissibility"

def minValidVotes : Nat := 5
def minEstablishedVotes : Nat := 1
def approvalThresholdBps : Nat := 7000

/-- `DIMENSIONS`. -/
def dimensions : List String := [originality, admissibility]

/-- `CHOICES[dimension]`. -/
def choices (dimension : String) : List String :=
  if dimension = originality then ["original", "not_original", "unsure"]
  else ["admissible", "not_admissible", "unsure"]

/-- `POSITIVE[dimension]`. -/
def positive (dimension : String) : String :=
  if dimension = originality then "original" else "admissible"

/-- `NEGATIVE[dimension]`. -/
def negative (dimension : String) : String :=
  if dimension = originality then "not_original" else "not_admissible"

/-- `review_policy()["dimensions"][dimension]`. -/
def dimensionPolicy (dimension : String) : Value :=
  .dict [("choices", .list ((choices dimension).map .str)),
    ("minimum_valid_votes", .int minValidVotes),
    ("minimum_established_votes", .int minEstablishedVotes),
    ("approval_threshold_bps", .int approvalThresholdBps),
    ("unsure_counts_toward_quorum", .bool true),
    ("unsure_counts_in_approval_denominator", .bool false),
    ("unsure_counts_for_reviewer_participation", .bool true)]

/-- `review_policy`. -/
def reviewPolicy : Value :=
  .dict [("network_id", .str "zoidberg-public-testnet-v1"),
    ("policy_kind", .str "dual_community_review"),
    ("policy_version", .int reviewPolicyVersion),
    ("reviewer_policy_version", .int reviewerPolicyVersion),
    ("reputation_rule_version", .int reputationRuleVersion),
    ("eligible_reviewer_statuses",
      .list [.str "PROBATIONARY_REVIEWER", .str "ESTABLISHED_REVIEWER"]),
    ("review_epoch_source", .str "finalized_canonical_height"),
    ("two_dimensions_consume_one_review_participation", .bool true),
    ("dimensions", .dict (dimensions.map fun d => (d, dimensionPolicy d))),
    ("report", .str "separate_deferred_to_task_6_7"),
    ("activation", .str "inactive_owner_decision_required")]

/-- `review_policy_digest`. -/
def reviewPolicyDigest (h : Host) : Py String := canonicalHash h reviewPolicy

/-- `validate_choice`. -/
def validateChoice (dimension : String) (choice : Value) : Py Unit := do
  require (dimension ∈ dimensions) (.value "Unknown review dimension.")
  require (∃ c ∈ choices dimension, choice = .str c)
    (.value "Invalid choice for review dimension.")

/-! ## The tally of one dimension -/

/-- `vote.get("voter_wallet_address") or vote.get("voter")`. -/
def voterOf (vote : Dict) : Value :=
  (vote.get "voter_wallet_address").orElse (vote.get "voter")

/-- The votes that a tally reads. -/
def isSelected (dimension : String) (vote : Dict) : Bool :=
  Value.pyEq (vote.get "dimension") (.str dimension) &&
    Value.pyEq (vote.get "vote_version") (.int reviewVoteVersion)

/-- `str(v or "")`. -/
def textOr (rt : Runtime) (v : Value) : String := if v.truthy then v.text rt else ""

/-- The key that the votes are sorted by. -/
def sortKey (rt : Runtime) (vote : Dict) : String × String :=
  (rt.lower (textOr rt (voterOf vote)), textOr rt (vote.get "vote_identity"))

/-- The order of two texts as a pair. -/
def keyLe (a b : String × String) : Prop := a.1 < b.1 ∨ (a.1 = b.1 ∧ a.2 ≤ b.2)

instance : DecidableRel keyLe := fun _ _ => inferInstanceAs (Decidable (_ ∨ _))

/-- One vote of the sorted list: the first vote of a wallet stands for it. -/
def tallyVote (rt : Runtime) (dimension : String) (unique : Table String Dict) (vote : Dict) :
    Py (Table String Dict) := do
  let choice := vote.get "vote_type"
  validateChoice dimension choice
  match NativeTransfer.normalizeWalletAddress rt (voterOf vote) with
  | none => return unique
  | some wallet =>
    if vote.get "reviewer_eligible" ≠ .bool true then return unique
    match unique.get? wallet with
    | some counted =>
      require (counted.get "vote_type" = choice)
        (.value "Conflicting review votes in frozen vote set.")
      return unique
    | none => return unique.set wallet vote

/-- What `tally` returns. -/
structure Tally where
  dimension : String
  policyVersion : Int
  policyDigest : String
  eligibleValidVotes : Nat
  establishedReviewerVotes : Nat
  positiveVotes : Nat
  negativeVotes : Nat
  unsureVotes : Nat
  approvalDenominator : Nat
  approvalThresholdBps : Nat
  quorumReached : Bool
  resolved : Bool
  outcome : String
  voteSetDigest : String
  deriving DecidableEq

/-- `unique`: the counted vote of every wallet. -/
def uniqueVotes (rt : Runtime) (votes : List Dict) (dimension : String) :
    Py (Table String Dict) :=
  ((votes.filter (isSelected dimension)).insertionSort
    fun a b => keyLe (sortKey rt a) (sortKey rt b)).foldlM (tallyVote rt dimension) []

/-- The counts of `tally` over its counted votes. -/
def tallyOf (h : Host) (dimension : String) (unique : Table String Dict) : Py Tally := do
  let ordered := unique.insertionSort fun a b => a.1 ≤ b.1
  let count (p : Dict → Bool) := ordered.countP fun e => p e.2
  let positives := count fun v => v.get "vote_type" = .str (positive dimension)
  let negatives := count fun v => v.get "vote_type" = .str (negative dimension)
  let unsure := count fun v => v.get "vote_type" = .str "unsure"
  let established := count fun v =>
    Value.pyEq (v.get "reviewer_status") (.str "ESTABLISHED_REVIEWER")
  let denominator := positives + negatives
  let quorum := decide (minValidVotes ≤ ordered.length ∧ minEstablishedVotes ≤ established)
  let approved := quorum && decide (0 < denominator) &&
    decide (denominator * approvalThresholdBps ≤ positives * 10000)
  let rejected := quorum && decide (0 < denominator) && !approved
  let voteSet := ordered.map fun e => Value.dict [("wallet", .str e.1),
    ("choice", e.2.get "vote_type"), ("identity", e.2.get "vote_identity"),
    ("status", e.2.get "reviewer_status")]
  return {
    dimension
    policyVersion := reviewPolicyVersion
    policyDigest := ← reviewPolicyDigest h
    eligibleValidVotes := ordered.length
    establishedReviewerVotes := established
    positiveVotes := positives
    negativeVotes := negatives
    unsureVotes := unsure
    approvalDenominator := denominator
    approvalThresholdBps
    quorumReached := quorum
    resolved := approved || rejected
    outcome := if approved then positive dimension
      else if rejected then negative dimension else "unresolved"
    voteSetDigest := ← canonicalHash h (.list voteSet) }

/-- `tally`. -/
def tally (h : Host) (votes : List Dict) (dimension : String) : Py Tally := do
  require (dimension ∈ dimensions) (.value "Unknown review dimension.")
  tallyOf h dimension (← uniqueVotes h.toRuntime votes dimension)

/-- A tally as a dictionary. -/
def Tally.toDict (t : Tally) : Dict :=
  [("dimension", .str t.dimension), ("policy_version", .int t.policyVersion),
    ("policy_digest", .str t.policyDigest),
    ("eligible_valid_votes", .int t.eligibleValidVotes),
    ("established_reviewer_votes", .int t.establishedReviewerVotes),
    ("positive_votes", .int t.positiveVotes), ("negative_votes", .int t.negativeVotes),
    ("unsure_votes", .int t.unsureVotes), ("approval_denominator", .int t.approvalDenominator),
    ("approval_threshold_bps", .int t.approvalThresholdBps),
    ("quorum_reached", .bool t.quorumReached), ("resolved", .bool t.resolved),
    ("outcome", .str t.outcome), ("vote_set_digest", .str t.voteSetDigest)]

/-- What `combined_review` returns. -/
structure CombinedReview where
  originality : Tally
  admissibility : Tally
  reviewComplete : Bool
  reviewQualified : Bool
  reviewEvidenceDigest : String
  deriving DecidableEq

/-- `combined_review`. -/
def combinedReview (h : Host) (votes : List Dict) : Py CombinedReview := do
  let original ← tally h votes originality
  let admissible ← tally h votes admissibility
  let digest ← canonicalHash h (.dict [("policy_digest", .str (← reviewPolicyDigest h)),
    ("originality", .dict original.toDict), ("admissibility", .dict admissible.toDict)])
  return {
    originality := original
    admissibility := admissible
    reviewComplete := original.resolved && admissible.resolved
    reviewQualified := original.outcome == "original" && admissible.outcome == "admissible"
    reviewEvidenceDigest := digest }

/-! ## A repeated vote counts once -/

variable {rt : Runtime} {dimension : String}

/-- A counted wallet keeps its vote. -/
theorem get?_tallyVote {unique unique' : Table String Dict} {vote : Dict}
    (hstep : tallyVote rt dimension unique vote = .ok unique') {wallet : String} {counted : Dict}
    (hcounted : unique.get? wallet = some counted) : unique'.get? wallet = some counted := by
  simp only [tallyVote, bind_eq_ok] at hstep
  obtain ⟨-, -, hstep⟩ := hstep
  split at hstep
  · exact pure_eq_ok.mp hstep ▸ hcounted
  · next w _ =>
    split at hstep
    · exact pure_eq_ok.mp hstep ▸ hcounted
    · split at hstep
      · obtain ⟨-, -, hstep⟩ := bind_eq_ok.mp hstep
        exact pure_eq_ok.mp hstep ▸ hcounted
      · next hnone =>
        rw [← pure_eq_ok.mp hstep, Table.get?_set_of_ne]
        · exact hcounted
        · rintro rfl
          rw [hnone] at hcounted
          cases hcounted

/-- What a counted vote leaves behind: it is valid, and if it is counted at all, its
wallet has a vote of the same choice. -/
structure Counted (rt : Runtime) (dimension : String) (unique : Table String Dict)
    (vote : Dict) : Prop where
  valid : validateChoice dimension (vote.get "vote_type") = .ok ()
  wallet : ∀ wallet, NativeTransfer.normalizeWalletAddress rt (voterOf vote) = some wallet →
    vote.get "reviewer_eligible" = .bool true →
    ∃ counted, unique.get? wallet = some counted ∧
      counted.get "vote_type" = vote.get "vote_type"

/-- A counted vote is not counted again. -/
theorem Counted.again {unique : Table String Dict} {vote : Dict}
    (h : Counted rt dimension unique vote) : tallyVote rt dimension unique vote = .ok unique := by
  simp only [tallyVote, h.valid, ok_bind]
  cases hwallet : NativeTransfer.normalizeWalletAddress rt (voterOf vote) with
  | none => rfl
  | some wallet =>
    by_cases heligible : vote.get "reviewer_eligible" = .bool true
    · obtain ⟨counted, hcounted, hchoice⟩ := h.wallet wallet hwallet heligible
      simp only [heligible, ne_eq, not_true_eq_false, if_false, hcounted, require_pos hchoice]
      rfl
    · simp only [ne_eq, heligible, not_false_eq_true, if_true]
      rfl

theorem Counted.step {unique unique' : Table String Dict} {vote other : Dict}
    (h : Counted rt dimension unique vote)
    (hstep : tallyVote rt dimension unique other = .ok unique') :
    Counted rt dimension unique' vote where
  valid := h.valid
  wallet wallet hwallet heligible := by
    obtain ⟨counted, hcounted, hchoice⟩ := h.wallet wallet hwallet heligible
    exact ⟨counted, get?_tallyVote hstep hcounted, hchoice⟩

theorem counted_of_tallyVote {unique unique' : Table String Dict} {vote : Dict}
    (hstep : tallyVote rt dimension unique vote = .ok unique') :
    Counted rt dimension unique' vote := by
  simp only [tallyVote, bind_eq_ok] at hstep
  obtain ⟨⟨⟩, hvalid, hstep⟩ := hstep
  refine ⟨hvalid, fun wallet hwallet heligible => ?_⟩
  rw [hwallet] at hstep
  simp only [heligible, ne_eq, not_true_eq_false, if_false] at hstep
  split at hstep
  · next counted hcounted =>
    simp only [bind_eq_ok, require_eq_ok, pure_eq_ok] at hstep
    obtain ⟨-, hchoice, rfl⟩ := hstep
    exact ⟨counted, hcounted, hchoice⟩
  · rw [← pure_eq_ok.mp hstep]
    exact ⟨vote, Table.get?_set_self _ _ _, rfl⟩

theorem counted_of_mem {votes : List Dict} {unique unique' : Table String Dict} {vote : Dict}
    (hrun : votes.foldlM (tallyVote rt dimension) unique = .ok unique') (hvote : vote ∈ votes) :
    Counted rt dimension unique' vote := by
  induction votes using List.reverseRecOn generalizing unique' with
  | nil => cases hvote
  | append_singleton votes last ih =>
    obtain ⟨middle, hrun, hlast⟩ := foldlM_append_eq_ok.mp hrun
    have hstep : tallyVote rt dimension middle last = .ok unique' := by simpa using hlast
    obtain hvote | hvote := List.mem_append.mp hvote
    · exact (ih hrun hvote).step hstep
    · obtain rfl := List.mem_singleton.mp hvote
      exact counted_of_tallyVote hstep

/-- Counting a list of votes ignores repeated ones. -/
theorem tallyVotes_absorbs (rt : Runtime) (dimension : String) :
    Scan.Absorbs fun votes : List Dict =>
      (votes.foldlM (tallyVote rt dimension) [] : Py (Table String Dict)) := by
  intro front back vote hvote
  simp only [List.foldlM_append]
  cases hrun : (front.foldlM (tallyVote rt dimension) [] : Py (Table String Dict)) with
  | error e => rfl
  | ok unique =>
    simp only [ok_bind, List.foldlM_cons, (counted_of_mem hrun hvote).again]

instance (rt : Runtime) : IsTrans Dict fun a b => keyLe (sortKey rt a) (sortKey rt b) where
  trans a b c hab hbc := by
    obtain hab | ⟨hab, hab'⟩ := hab
    · obtain hbc | ⟨hbc, -⟩ := hbc
      · exact Or.inl (lt_trans hab hbc)
      · exact Or.inl (hbc ▸ hab)
    · obtain hbc | ⟨hbc, hbc'⟩ := hbc
      · exact Or.inl (hab ▸ hbc)
      · exact Or.inr ⟨hab.trans hbc, le_trans hab' hbc'⟩

instance (rt : Runtime) : Std.Total fun a b : Dict => keyLe (sortKey rt a) (sortKey rt b) where
  total a b := by
    obtain h | h | h := lt_trichotomy (sortKey rt a).1 (sortKey rt b).1
    · exact Or.inl (Or.inl h)
    · exact (le_total (sortKey rt a).2 (sortKey rt b).2).imp (fun h' => Or.inr ⟨h, h'⟩)
        fun h' => Or.inr ⟨h.symm, h'⟩
    · exact Or.inr (Or.inl h)

/-- A tally ignores repeated votes. -/
theorem uniqueVotes_absorbs (rt : Runtime) (dimension : String) :
    Scan.Absorbs fun votes => uniqueVotes rt votes dimension :=
  (Scan.absorbs_insertionSort _ (tallyVotes_absorbs rt dimension)).filter _

/-- A combined review ignores repeated votes. -/
theorem combinedReview_absorbs (h : Host) : Scan.Absorbs (combinedReview h) := by
  intro front back vote hvote
  have htally : ∀ dimension, tally h (front ++ vote :: back) dimension =
      tally h (front ++ back) dimension := by
    intro dimension
    simp only [tally]
    rw [show uniqueVotes h.toRuntime (front ++ vote :: back) dimension =
      uniqueVotes h.toRuntime (front ++ back) dimension from
        uniqueVotes_absorbs h.toRuntime dimension front back vote hvote]
  simp only [combinedReview, htally]

end ZoidbergChain.DualReview
