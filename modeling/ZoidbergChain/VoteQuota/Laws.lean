import ZoidbergChain.VoteQuota.Model

/-!
# The epoch quota holds

- `perform_eq_ok` is what a call that returns did: it found the vote, or it stored one row.
- `Kept` is what holds of the table after any calls, `Within` bounds the counted submissions by
  the maxima that were passed.
- `epoch_quota` puts these together with what one more call does.
-/

namespace ZoidbergChain.VoteQuota

open Python DualReview

variable {h : VoteHost} {db : Columns} {table table' : VoteTable} {r : VoteRecord}

/-! ## One write -/

theorem insertRow_eq_ok {row : Row} :
    insertRow db table row = .ok table' ↔
      db.columnError row.record = none ∧ (∀ other ∈ table, ¬Clashes other row) ∧
        table' = table ++ [row] := by
  unfold insertRow
  cases hcolumn : db.columnError row.record with
  | some e => simp
  | none =>
    by_cases hclash : ∃ other ∈ table, Clashes other row
    · simp only [if_pos hclash, reduceCtorEq, false_iff]
      rintro ⟨-, hnot, -⟩
      obtain ⟨other, hother, hclash⟩ := hclash
      exact hnot other hother hclash
    · simp only [if_neg hclash, Except.ok.injEq, true_and]
      constructor
      · rintro rfl
        exact ⟨fun other hother hc => hclash ⟨other, hother, hc⟩, rfl⟩
      · rintro ⟨-, rfl⟩
        rfl

theorem existing_eq_some {row : Row} (hrow : existing table r = some row) :
    row ∈ table ∧ r.Matches row :=
  ⟨List.mem_of_find?_eq_some hrow, by simpa using List.find?_some hrow⟩

/-- The rows that a write may store: the row of the vote, or, when the vote was to be accepted,
its rejected form. -/
def IsRowOf (r : VoteRecord) (lifecycleState : LifecycleState) (row : Row) : Prop :=
  row = { record := r, lifecycleState } ∨
    lifecycleState = .accepted ∧ row = { record := r.conflicting, lifecycleState := .rejected }

/-- A write finds the vote or stores a row of it. -/
theorem insertDurableVoteRecord_eq_ok {lifecycleState : LifecycleState} {outcome : Outcome}
    (hok : insertDurableVoteRecord db table r lifecycleState = .ok (outcome, table')) :
    (∃ row, existing table r = some row ∧ outcome = replayOf row ∧ table' = table) ∨
    ∃ row, IsRowOf r lifecycleState row ∧ (∀ other ∈ table, ¬Clashes other row) ∧
      outcome = storedAs row ∧ table' = table ++ [row] := by
  unfold insertDurableVoteRecord at hok
  dsimp only at hok
  cases hinsert : insertRow db table { record := r, lifecycleState } with
  | ok t =>
    rw [hinsert] at hok
    obtain ⟨rfl, rfl⟩ := Prod.mk.inj (Except.ok.inj hok)
    obtain ⟨-, hapart, rfl⟩ := insertRow_eq_ok.mp hinsert
    exact .inr ⟨_, .inl rfl, hapart, rfl, rfl⟩
  | error e =>
    rw [hinsert] at hok
    dsimp only at hok
    split at hok
    · cases hok
    cases hexisting : existing table r with
    | some row =>
      rw [hexisting] at hok
      obtain ⟨rfl, rfl⟩ := Prod.mk.inj (Except.ok.inj hok)
      exact .inl ⟨row, rfl, rfl, rfl⟩
    | none =>
      rw [hexisting] at hok
      dsimp only at hok
      split at hok
      · cases hok
      next haccepted =>
        -- the second attempt stores the vote as rejected
        obtain ⟨t, hinsert, hok⟩ := bind_eq_ok.mp hok
        obtain ⟨rfl, rfl⟩ := Prod.mk.inj (Except.ok.inj hok)
        obtain ⟨-, hapart, rfl⟩ := insertRow_eq_ok.mp hinsert
        exact .inr ⟨_, .inr ⟨not_not.mp haccepted, rfl⟩, hapart, rfl, rfl⟩

/-- What a row takes from its vote without a change. -/
theorem fields_of_normalized {vote : Dict} (hr : normalizedVoteRecord h vote = .ok r) :
    r.rejectionReason = none ∧ r.voterAddress = voterAddress h vote ∧
      r.reviewerPolicyVersion = vote.get "reviewer_policy_version" ∧
      ∃ snapshot, checkedSnapshot h vote = .ok snapshot ∧
        r.reviewerStatusEffectiveHeight = snapshot.height := by
  unfold normalizedVoteRecord at hr
  obtain ⟨dimension, -, hr⟩ := bind_eq_ok.mp hr
  obtain ⟨identity, -, hr⟩ := bind_eq_ok.mp hr
  obtain ⟨snapshot, hsnapshot, hr⟩ := bind_eq_ok.mp hr
  obtain rfl := Except.ok.inj hr
  refine ⟨rfl, ?_, ?_, snapshot, hsnapshot, ?_⟩ <;> dsimp only

/-- With a policy version, the recorded height is a whole number or missing, as in the vote. -/
theorem height_of_checkedSnapshot {vote : Dict} {snapshot : Snapshot}
    (hsnapshot : checkedSnapshot h vote = .ok snapshot)
    (hpolicy : vote.get "reviewer_policy_version" ≠ .null) :
    snapshot.height = vote.get "reviewer_status_effective_height" ∧
      (snapshot.height = .null ∨ ∃ n, snapshot.height = .int n) := by
  unfold checkedSnapshot at hsnapshot
  dsimp only at hsnapshot
  rw [if_neg fun hnull => hpolicy hnull.1] at hsnapshot
  obtain ⟨-, -, hsnapshot⟩ := bind_eq_ok.mp hsnapshot
  obtain ⟨-, -, hsnapshot⟩ := bind_eq_ok.mp hsnapshot
  obtain ⟨-, -, hsnapshot⟩ := bind_eq_ok.mp hsnapshot
  obtain ⟨normalized, -, hsnapshot⟩ := bind_eq_ok.mp hsnapshot
  obtain ⟨reference, href, hsnapshot⟩ := bind_eq_ok.mp hsnapshot
  obtain ⟨-, -, hsnapshot⟩ := bind_eq_ok.mp hsnapshot
  obtain rfl := Except.ok.inj hsnapshot
  dsimp only
  generalize vote.get "reviewer_status_effective_height" = height at href ⊢
  unfold canonicalReference at href
  split at href
  · next hnull =>
    obtain rfl := Except.ok.inj href
    exact ⟨hnull.1.symm, .inl rfl⟩
  · split at href
    · obtain ⟨-, -, href⟩ := bind_eq_ok.mp href
      obtain ⟨-, -, href⟩ := bind_eq_ok.mp href
      obtain rfl := Except.ok.inj href
      exact ⟨rfl, .inr ⟨_, rfl⟩⟩
    · cases href

/-- The height of a row that records a policy version and a height. -/
theorem height_of_normalized {vote : Dict} (hr : normalizedVoteRecord h vote = .ok r)
    (hpolicy : r.reviewerPolicyVersion ≠ .null)
    (hheight : r.reviewerStatusEffectiveHeight ≠ .null) :
    ∃ n, r.reviewerStatusEffectiveHeight = .int n := by
  obtain ⟨-, -, hversion, snapshot, hsnapshot, hsame⟩ := fields_of_normalized hr
  rw [hversion] at hpolicy
  rw [hsame] at hheight ⊢
  exact (height_of_checkedSnapshot hsnapshot hpolicy).2.resolve_left hheight

/-- What is known of a row that a call stores for its vote. -/
structure Stored (table : VoteTable) (call : Call) (r : VoteRecord) (row : Row) : Prop where
  evidenceId : row.record.evidenceId = r.evidenceId
  voteIdentity : row.record.voteIdentity = r.voteIdentity
  apart : ∀ other ∈ table, ¬Clashes other row
  /-- Only a limited call within its quota stores an accepted row. -/
  accepted : row.lifecycleState = .accepted → ∃ vote k low high n,
    call = .limited vote (.int k) low high ∧ row.record = r ∧
    r.reviewerPolicyVersion ≠ .null ∧ r.reviewerStatusEffectiveHeight = .int n ∧
    (used table r low high < k ∨ sameSubmission table r low high = true)
  /-- A limited call refuses a vote for the quota only if its submission is not counted. -/
  refused : ∀ vote maximum low high, call = .limited vote maximum low high →
    row.record.rejectionReason = some limitReached → sameSubmission table r low high = false

/-- A call that returns found the vote or stored a row of it. -/
theorem perform_eq_ok {call : Call} {outcome : Outcome}
    (hok : perform h db table call = .ok (outcome, table')) :
    ∃ r, normalizedVoteRecord h call.vote = .ok r ∧
      ((∃ row, existing table r = some row ∧ outcome = replayOf row ∧ table' = table) ∨
        ∃ row, Stored table call r row ∧ outcome = storedAs row ∧ table' = table ++ [row]) := by
  cases call with
  | rejected vote reason =>
    obtain ⟨r, hr, hinsert⟩ := bind_eq_ok.mp hok
    refine ⟨r, hr, ?_⟩
    obtain ⟨row, hrow, hout, htable⟩ | ⟨row, hrow, hapart, hout, htable⟩ :=
      insertDurableVoteRecord_eq_ok hinsert
    · exact .inl ⟨row, hrow, hout, htable⟩
    · obtain rfl | ⟨haccepted, -⟩ := hrow
      · exact .inr ⟨_, ⟨rfl, rfl, hapart, nofun, nofun⟩, hout, htable⟩
      · cases haccepted
  | limited vote maximum low high =>
    obtain ⟨k, hk, hrest⟩ := bind_eq_ok.mp hok
    obtain rfl : maximum = .int k := by
      cases maximum with
      | int n =>
        obtain ⟨-, -, hk⟩ := bind_eq_ok.mp hk
        rw [Except.ok.inj hk]
      | _ => cases hk
    obtain ⟨r, hr, hrest⟩ := bind_eq_ok.mp hrest
    obtain ⟨_, hsnapshot, hrest⟩ := bind_eq_ok.mp hrest
    obtain ⟨hpolicy, hheight⟩ := require_eq_ok.mp hsnapshot
    refine ⟨r, hr, ?_⟩
    have hreason := (fields_of_normalized hr).1
    split at hrest
    · next row hrow =>
      obtain ⟨rfl, rfl⟩ := Prod.mk.inj (Except.ok.inj hrest)
      exact .inl ⟨row, hrow, rfl, rfl⟩
    · split at hrest
      · -- over the quota, and not a submission that is counted
        next hlimit =>
        obtain ⟨row, hrow, hout, htable⟩ | ⟨row, hrow, hapart, hout, htable⟩ :=
          insertDurableVoteRecord_eq_ok hrest
        · exact .inl ⟨row, hrow, hout, htable⟩
        · obtain rfl | ⟨haccepted, -⟩ := hrow
          · refine .inr ⟨_, ⟨rfl, rfl, hapart, nofun, ?_⟩, hout, htable⟩
            rintro _ _ _ _ ⟨⟩ -
            exact hlimit.2
          · cases haccepted
      · next hlimit =>
        obtain ⟨row, hrow, hout, htable⟩ | ⟨row, hrow, hapart, hout, htable⟩ :=
          insertDurableVoteRecord_eq_ok hrest
        · exact .inl ⟨row, hrow, hout, htable⟩
        · obtain ⟨n, hn⟩ := height_of_normalized hr hpolicy hheight
          have hquota : used table r low high < k ∨ sameSubmission table r low high = true := by
            by_cases hused : (used table r low high : Int) < k
            · exact .inl hused
            · right
              by_contra hsame
              exact hlimit ⟨not_lt.mp hused, Bool.eq_false_iff.mpr hsame⟩
          obtain rfl | ⟨-, rfl⟩ := hrow
          · refine .inr ⟨_, ⟨rfl, rfl, hapart, fun _ => ?_, ?_⟩, hout, htable⟩
            · exact ⟨vote, k, low, high, n, rfl, rfl, hpolicy, hn, hquota⟩
            · rintro _ _ _ _ - hlimited
              rw [hreason] at hlimited
              cases hlimited
          · refine .inr ⟨_, ⟨rfl, rfl, hapart, nofun, ?_⟩, hout, htable⟩
            rintro _ _ _ _ - hlimited
            simp [VoteRecord.conflicting, hreason, limitReached] at hlimited

/-! ## Any calls -/

variable {voter : String} {policyVersion : Value}

/-- What holds of the table after any calls for a voter and a policy version. -/
structure Kept (voter : String) (policyVersion : Value) (table : VoteTable) : Prop where
  apart : table.Pairwise fun a b => ¬Clashes a b
  accepted : ∀ row ∈ table, row.lifecycleState = .accepted →
    row.record.voterAddress = voter ∧ row.record.reviewerPolicyVersion = policyVersion

/-- The counted submissions of each epoch stay within the largest maximum passed for it. -/
def Within (voter : String) (calls : List Call) (table : VoteTable) : Prop :=
  ∀ epoch, (countedSubmissions table voter epoch).length ≤ maximumPassed epoch calls

theorem maximumPassed_append (epoch : Int) (calls : List Call) (call : Call) :
    maximumPassed epoch (calls ++ [call]) =
      max (maximumPassed epoch calls) (call.maximumFor epoch) := by
  unfold maximumPassed
  induction calls with
  | nil => simp
  | cons first calls ih =>
    simp only [List.cons_append, List.map_cons, List.foldr_cons, ih]
    rw [max_assoc]

theorem acceptedIn_append (row : Row) (low high : Int) :
    acceptedIn (table ++ [row]) voter low high =
      acceptedIn table voter low high ++ acceptedIn [row] voter low high := by
  simp [acceptedIn]

/-- With one policy version, the count of a limited call is the one of its epoch. -/
theorem used_eq (hkept : Kept voter policyVersion table)
    (hpolicy : r.reviewerPolicyVersion = policyVersion) (hvoter : r.voterAddress = voter)
    (epoch : Int) :
    used table r (epoch * reviewEpochBlocks)
        (epoch * reviewEpochBlocks + reviewEpochBlocks - 1) =
      (countedSubmissions table voter epoch).length := by
  unfold used countedSubmissions
  rw [hvoter, List.filter_eq_self.mpr]
  intro row hrow
  obtain ⟨hmem, hrow⟩ := List.mem_filter.mp hrow
  obtain ⟨-, hstate, -⟩ := of_decide_eq_true hrow
  simpa [hpolicy] using (hkept.accepted row hmem hstate).2

/-- The window of an epoch holds the heights of the epoch. -/
theorem between_epoch {epoch n : Int} :
    between (epoch * reviewEpochBlocks) (epoch * reviewEpochBlocks + reviewEpochBlocks - 1)
      (.int n) = true ↔ n / reviewEpochBlocks = epoch := by
  have hbetween : between (epoch * reviewEpochBlocks)
      (epoch * reviewEpochBlocks + reviewEpochBlocks - 1) (.int n) =
        (decide (epoch * 5 ≤ n) && decide (n ≤ epoch * 5 + 5 - 1)) := rfl
  rw [hbetween, Bool.and_eq_true, decide_eq_true_iff, decide_eq_true_iff, reviewEpochBlocks]
  omega

/-- A row adds at most one counted submission, and none that is counted. -/
theorem length_countedSubmissions_append (row : Row) (epoch : Int) :
    (countedSubmissions (table ++ [row]) voter epoch).length ≤
      (countedSubmissions table voter epoch).length +
        (if row.record.submissionId ∈ countedSubmissions table voter epoch then 0
          else (acceptedIn [row] voter (epoch * reviewEpochBlocks)
            (epoch * reviewEpochBlocks + reviewEpochBlocks - 1)).length) := by
  unfold countedSubmissions
  rw [acceptedIn_append, List.map_append]
  generalize (acceptedIn table voter (epoch * reviewEpochBlocks)
    (epoch * reviewEpochBlocks + reviewEpochBlocks - 1)).map
      (fun row => row.record.submissionId) = submissions
  unfold acceptedIn
  by_cases hrow : row.record.voterAddress = voter ∧ row.lifecycleState = .accepted ∧
    between (epoch * reviewEpochBlocks) (epoch * reviewEpochBlocks + reviewEpochBlocks - 1)
      row.record.reviewerStatusEffectiveHeight = true
  · simp only [List.filter_cons, hrow, and_self, decide_true, if_true, List.filter_nil,
      List.map_cons, List.map_nil, List.length_singleton, List.mem_dedup]
    simp only [← List.card_toFinset, List.toFinset_append, List.toFinset_cons,
      List.toFinset_nil, insert_empty_eq]
    split
    · next hmem =>
      rw [Finset.union_eq_left.mpr (by simpa using hmem)]
      exact le_rfl
    · exact (Finset.card_union_le _ _).trans (by simp)
  · simp [hrow]

/-- One call keeps what holds of the table, and the bound with its maximum. -/
theorem kept_perform {calls : List Call} {call : Call} {outcome : Outcome}
    (hkept : Kept voter policyVersion table) (hwithin : Within voter calls table)
    (hfits : call.Fits h voter policyVersion)
    (hok : perform h db table call = .ok (outcome, table')) :
    Kept voter policyVersion table' ∧ Within voter (calls ++ [call]) table' := by
  obtain ⟨r, hr, ⟨row, -, -, rfl⟩ | ⟨row, hstored, -, rfl⟩⟩ := perform_eq_ok hok
  · refine ⟨hkept, fun epoch => ?_⟩
    rw [maximumPassed_append]
    exact (hwithin epoch).trans (le_max_left _ _)
  by_cases hstate : row.lifecycleState = .accepted
  · obtain ⟨vote, k, low, high, n, rfl, hrecord, hpolicy, hheight, hquota⟩ :=
      hstored.accepted hstate
    obtain ⟨hvoter, hversion, hwindow⟩ := hfits r hr
    have hversion := hversion hpolicy
    obtain ⟨hlow, hhigh⟩ := hwindow n hheight
    constructor
    · refine ⟨List.pairwise_append.mpr ⟨hkept.apart, List.pairwise_singleton _ _, ?_⟩, ?_⟩
      · intro other hother last hlast
        obtain rfl := List.mem_singleton.mp hlast
        exact hstored.apart other hother
      · intro other hother hother'
        obtain hother | hother := List.mem_append.mp hother
        · exact hkept.accepted other hother hother'
        · obtain rfl := List.mem_singleton.mp hother
          rw [hrecord]
          exact ⟨hvoter, hversion⟩
    · intro epoch
      rw [maximumPassed_append]
      refine (length_countedSubmissions_append row epoch).trans ?_
      by_cases hepoch : n / reviewEpochBlocks = epoch
      · -- the epoch of the vote: the call counted its submissions
        rw [hlow, hepoch] at hhigh
        have hused := used_eq hkept hversion hvoter epoch
        rw [hlow, hepoch, hhigh] at hquota
        rw [hused] at hquota
        split
        · exact (hwithin epoch).trans (le_max_left _ _)
        next hnot =>
          obtain hquota | hsame := hquota
          · have hlength : (acceptedIn [row] voter (epoch * reviewEpochBlocks)
                (epoch * reviewEpochBlocks + reviewEpochBlocks - 1)).length ≤ 1 :=
              List.length_filter_le _ _
            have hmax : (Call.limited vote (.int k) low high).maximumFor epoch = k.toNat := by
              simp [Call.maximumFor, hlow, hepoch]
            rw [hmax]
            refine le_max_of_le_right ?_
            omega
          · refine absurd ?_ hnot
            obtain ⟨other, hother, hsame⟩ := List.any_eq_true.mp hsame
            rw [hvoter] at hother
            rw [hrecord, countedSubmissions, List.mem_dedup]
            exact List.mem_map.mpr ⟨other, hother, by simpa using hsame⟩
      · -- another epoch: nothing is added
        have hnone : (acceptedIn [row] voter (epoch * reviewEpochBlocks)
            (epoch * reviewEpochBlocks + reviewEpochBlocks - 1)) = [] := by
          unfold acceptedIn
          refine List.filter_eq_nil_iff.mpr fun other hother => ?_
          obtain rfl := List.mem_singleton.mp hother
          simp [hrecord, hheight, between_epoch, hepoch]
        rw [hnone]
        simpa using (hwithin epoch).trans (le_max_left _ _)
  · -- a rejected row
    constructor
    · refine ⟨List.pairwise_append.mpr ⟨hkept.apart, List.pairwise_singleton _ _, ?_⟩, ?_⟩
      · intro other hother last hlast
        obtain rfl := List.mem_singleton.mp hlast
        exact hstored.apart other hother
      · intro other hother hother'
        obtain hother | hother := List.mem_append.mp hother
        · exact hkept.accepted other hother hother'
        · obtain rfl := List.mem_singleton.mp hother
          exact absurd hother' hstate
    · intro epoch
      rw [maximumPassed_append]
      refine (length_countedSubmissions_append row epoch).trans ?_
      have hnone : (acceptedIn [row] voter (epoch * reviewEpochBlocks)
          (epoch * reviewEpochBlocks + reviewEpochBlocks - 1)) = [] := by
        simp [acceptedIn, hstate]
      rw [hnone]
      simpa using (hwithin epoch).trans (le_max_left _ _)

theorem kept_run (calls : List Call) (hcalls : ∀ call ∈ calls, call.Fits h voter policyVersion) :
    Kept voter policyVersion (run h db calls) ∧ Within voter calls (run h db calls) := by
  induction calls using List.reverseRecOn with
  | nil => exact ⟨⟨List.Pairwise.nil, by simp [run]⟩, fun epoch => le_rfl⟩
  | append_singleton calls call ih =>
    obtain ⟨hkept, hwithin⟩ := ih fun c hc => hcalls c (by simp [hc])
    have hrun : run h db (calls ++ [call]) = after h db (run h db calls) call := by
      simp [run]
    rw [hrun]
    unfold after
    cases hok : perform h db (run h db calls) call with
    | ok result => exact kept_perform hkept hwithin (hcalls call (by simp)) hok
    | error e =>
      -- the call was rolled back
      refine ⟨hkept, fun epoch => ?_⟩
      rw [maximumPassed_append]
      exact (hwithin epoch).trans (le_max_left _ _)

/-- The lifecycle state that a call returns is stored under the keys of its vote. -/
theorem recorded_perform {call : Call} {outcome : Outcome}
    (hok : perform h db table call = .ok (outcome, table')) :
    table <+: table' ∧ ∃ r, normalizedVoteRecord h call.vote = .ok r ∧
      ∃ row ∈ table', r.Matches row ∧ row.lifecycleState = outcome.lifecycleState := by
  obtain ⟨r, hr, ⟨row, hrow, rfl, rfl⟩ | ⟨row, hstored, rfl, rfl⟩⟩ := perform_eq_ok hok
  · obtain ⟨hmem, hmatch⟩ := existing_eq_some hrow
    exact ⟨List.prefix_rfl, r, hr, row, hmem, hmatch, rfl⟩
  · exact ⟨List.prefix_append _ _, r, hr, row, by simp, .inl hstored.evidenceId, rfl⟩

/-- A vote on a submission that is counted in the window is not refused for the quota. -/
theorem not_limitReached {vote : Dict} {maximum : Value} {low high : Int} {outcome : Outcome}
    (hok : perform h db table (.limited vote maximum low high) = .ok (outcome, table'))
    (hr : normalizedVoteRecord h vote = .ok r) {counted : Row} (hcounted : counted ∈ table)
    (hstate : counted.lifecycleState = .accepted)
    (hvoter : counted.record.voterAddress = r.voterAddress)
    (hsubmission : counted.record.submissionId = r.submissionId)
    (hheight : between low high counted.record.reviewerStatusEffectiveHeight = true) :
    outcome.rejectionReason ≠ some limitReached := by
  obtain ⟨r', hr', ⟨row, -, rfl, -⟩ | ⟨row, hstored, rfl, -⟩⟩ := perform_eq_ok hok
  · nofun
  · intro hlimit
    obtain rfl := Except.ok.inj (hr.symm.trans hr')
    have hnot := hstored.refused vote maximum low high rfl hlimit
    have hsame : sameSubmission table r low high = true := by
      refine List.any_eq_true.mpr ⟨counted, List.mem_filter.mpr ⟨hcounted, ?_⟩, ?_⟩
      · simp [hvoter, hstate, hheight]
      · simpa using hsubmission
    rw [hsame] at hnot
    cases hnot

/-- After any calls for one voter and policy version, each with the window of its vote: in every
epoch the counted submissions are at most the largest maximum that was passed for it, and no two
accepted rows share an identity or a slot. One more call keeps every row; the state that it
returns is that of a row of its vote; and it does not refuse a vote on a counted submission for
the quota. -/
theorem epoch_quota {calls : List Call}
    (hcalls : ∀ call ∈ calls, call.Fits h voter policyVersion) :
    (∀ epoch, (countedSubmissions (run h db calls) voter epoch).length ≤
      maximumPassed epoch calls) ∧
    ((run h db calls).Pairwise fun a b =>
      a.lifecycleState = .accepted → b.lifecycleState = .accepted →
        (a.record.voteIdentity ≠ none → a.record.voteIdentity ≠ b.record.voteIdentity) ∧
          a.record.slot ≠ b.record.slot) ∧
    (∀ call outcome table', perform h db (run h db calls) call = .ok (outcome, table') →
      run h db calls <+: table' ∧ ∃ r, normalizedVoteRecord h call.vote = .ok r ∧
        ∃ row ∈ table', r.Matches row ∧ row.lifecycleState = outcome.lifecycleState) ∧
    ∀ vote maximum low high outcome table' r,
      perform h db (run h db calls) (.limited vote maximum low high) = .ok (outcome, table') →
      normalizedVoteRecord h vote = .ok r →
      ∀ counted ∈ run h db calls, counted.lifecycleState = .accepted →
        counted.record.voterAddress = r.voterAddress →
        counted.record.submissionId = r.submissionId →
        between low high counted.record.reviewerStatusEffectiveHeight = true →
        outcome.rejectionReason ≠ some limitReached := by
  obtain ⟨hkept, hwithin⟩ := @kept_run _ db _ _ calls hcalls
  refine ⟨hwithin, ?_, fun call outcome table' hok => recorded_perform hok, ?_⟩
  · refine hkept.apart.imp fun hapart ha hb => ⟨fun hsome hsame => ?_, fun hslot => ?_⟩
    · exact hapart (.inr (.inl ⟨hsome, hsame⟩))
    · exact hapart (.inr (.inr ⟨ha, hb, hslot⟩))
  · intro vote maximum low high outcome table' r hok hr counted hmem hstate hvoter hsame hheight
    exact not_limitReached hok hr hmem hstate hvoter hsame hheight

/-! ## Three votes with a quota of one -/

/-- A host whose vote identity is the nonce. -/
def sampleHost : VoteHost where
  toHost := Host.sample none none
  dualVoteIdentity signed := .ok signed.nonce
  signedVoteIdentity signed := .ok signed.nonce
  canonicalRecord _ := ""
  upper s := s
  now := "2026-08-02T00:00:00+00:00"

/-- Columns that take every value. -/
def sampleColumns : Columns where
  columnError _ := none

def sampleVoter : String := "reviewer"

def sampleHash : String := String.ofList (List.replicate 64 'b')

/-- A signed vote at height seven, which is in the second epoch. -/
def sampleVote (submission dimension choice nonce : String) : Dict :=
  [("submission_id", .str submission), ("voter", .str sampleVoter), ("vote_version", .int 2),
    ("dimension", .str dimension), ("vote_type", .str choice), ("content_hash", .str "c"),
    ("vote_signature", .str "s"), ("signature_scheme", .str "personal_sign"),
    ("vote_nonce", .str nonce), ("vote_issued_at", .str "t"), ("vote_expires_at", .str "u"),
    ("network_id", .str "n"), ("reviewer_policy_version", .int 1),
    ("reputation_rule_version", .int 2), ("reviewer_status", .str "PROBATIONARY_REVIEWER"),
    ("reviewer_status_effective_height", .int 7),
    ("reviewer_status_reference_block_hash", .str sampleHash)]

theorem fits_sampleVote (submission dimension choice nonce : String) (maximum : Value) :
    (Call.limited (sampleVote submission dimension choice nonce) maximum 5 9).Fits sampleHost
      sampleVoter (.int 1) := by
  intro r hr
  obtain ⟨-, hvoter, hversion, snapshot, hsnapshot, hheight⟩ := fields_of_normalized hr
  have hvoter' : (NativeTransfer.normalizeWalletAddress asciiRuntime (.str sampleVoter)).getD
      (Value.trimmed asciiRuntime (.str sampleVoter)) = sampleVoter := by
    decide +kernel
  refine ⟨hvoter.trans hvoter', fun _ => hversion, fun n hn => ?_⟩
  obtain ⟨hsame, -⟩ := height_of_checkedSnapshot hsnapshot nofun
  obtain rfl : (7 : Int) = n := Value.int.inj (hsame.symm.trans (hheight.symm.trans hn))
  decide

def sampleCalls : List Call :=
  [.limited (sampleVote "first" "originality" "original" "n1") (.int 1) 5 9,
    .limited (sampleVote "second" "originality" "original" "n2") (.int 1) 5 9,
    .limited (sampleVote "first" "admissibility" "admissible" "n3") (.int 1) 5 9]

theorem fits_sampleCalls : ∀ call ∈ sampleCalls, call.Fits sampleHost sampleVoter (.int 1) := by
  intro call hcall
  simp only [sampleCalls, List.mem_cons, List.not_mem_nil, or_false] at hcall
  obtain rfl | rfl | rfl := hcall <;> exact fits_sampleVote _ _ _ _ _

/-- The first vote is counted; after all three the quota of one holds. -/
theorem epoch_quota_sample :
    countedSubmissions (run sampleHost sampleColumns (sampleCalls.take 1)) sampleVoter 1 =
      ["first"] ∧
    maximumPassed 1 sampleCalls = 1 ∧
    (countedSubmissions (run sampleHost sampleColumns sampleCalls) sampleVoter 1).length ≤
      maximumPassed 1 sampleCalls :=
  ⟨by decide +kernel, by decide +kernel, (epoch_quota fits_sampleCalls).1 1⟩

end ZoidbergChain.VoteQuota
