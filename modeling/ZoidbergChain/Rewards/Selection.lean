import ZoidbergChain.NativeTransferStable
import ZoidbergChain.Rewards.Model

/-!
# What the selection of voter rewards guarantees

- `planLaw_of_build`: an eligible plan splits the configured pool, and pays each wallet once.
- `rewardId_inj`: the identifier of a record tells its submission, its wallet and its side.
- `selectionLaw_of_select`: a block pays no record twice and none that was settled, stays within
  the pool, and takes the unsettled records of a submission together.
-/

namespace ZoidbergChain.Rewards

open Python

variable {h : Host} {c : RewardCollaborators} {s : RewardState}

/-! ## Identifiers -/

/-- A wallet holds no colon. -/
theorem colon_free {v : Value} {wallet : String}
    (hw : normalizeWalletIdentity h.toRuntime v = some wallet) : ':' ∉ wallet.toList := by
  have hhex : ∀ {cs : List Char}, cs.all isLowerHex = true → ':' ∉ cs := fun hall hmem =>
    absurd (List.all_eq_true.mp hall ':' hmem) (by decide)
  unfold normalizeWalletIdentity at hw
  dsimp only at hw
  cases haddress : WalletSignatures.normalizeWalletAddress h.toRuntime
      (.str (v.trimmed h.toRuntime)) with
  | some a =>
    rw [haddress, Option.some_or, Option.some.injEq] at hw
    subst hw
    obtain ⟨hex, -, hall, rfl⟩ := isWalletAddress_of_addressOfChars haddress
    rw [String.toList_ofList]
    simp [hhex hall]
  | none =>
    rw [haddress, Option.none_or] at hw
    split at hw
    · next hkey =>
      rw [Option.some.inj hw] at hkey
      simp only [isValidWalletPublicKey, Bool.and_eq_true] at hkey
      exact hhex hkey.2
    · cases hw

/-- The last colon splits a text in one way. -/
theorem append_colon_inj {s t s' t' : String} (ht : ':' ∉ t.toList) (ht' : ':' ∉ t'.toList)
    (heq : s ++ ":" ++ t = s' ++ ":" ++ t') : s = s' ∧ t = t' := by
  have hlists : s.toList ++ ':' :: t.toList = s'.toList ++ ':' :: t'.toList := by
    have := congrArg String.toList heq
    simpa [String.toList_append] using this
  -- a shorter left part would leave its colon to the right one
  have hright : ∀ {c t t' : List Char}, ':' ∉ t → ':' :: t = c ++ ':' :: t' → c = [] := by
    intro c t t' ht heq
    cases c with
    | nil => rfl
    | cons d c =>
      rw [(List.cons.inj heq).2] at ht
      exact absurd (List.mem_append_right c List.mem_cons_self) ht
  have hboth : s.toList = s'.toList ∧ t.toList = t'.toList := by
    obtain ⟨c, hc, hrest⟩ | ⟨c, hc, hrest⟩ := List.append_eq_append_iff.mp hlists
    · obtain rfl := hright ht hrest
      exact ⟨by rw [hc, List.append_nil], (List.cons.inj hrest).2⟩
    · obtain rfl := hright ht' hrest
      exact ⟨by rw [hc, List.append_nil], (List.cons.inj hrest).2.symm⟩
  exact ⟨String.toList_inj.mp hboth.1, String.toList_inj.mp hboth.2⟩

/-- The identifier of a record tells its submission, its wallet and its side. -/
theorem rewardId_inj {id id' wallet wallet' side side' : String} (hw : ':' ∉ wallet.toList)
    (hw' : ':' ∉ wallet'.toList) (hs : ':' ∉ side.toList) (hs' : ':' ∉ side'.toList)
    (heq : rewardId id wallet side = rewardId id' wallet' side') :
    id = id' ∧ wallet = wallet' ∧ side = side' := by
  obtain ⟨hleft, hside⟩ := append_colon_inj hs hs' heq
  obtain ⟨hid, hwallet⟩ := append_colon_inj hw hw' hleft
  have hlists := congrArg String.toList hid
  rw [String.toList_append, String.toList_append] at hlists
  exact ⟨String.toList_inj.mp (List.append_cancel_left hlists), hwallet, hside⟩

/-! ## The voters -/

/-- The votes that are kept have a wallet each, and the wallets are distinct. -/
theorem firstVotes_wallets (creator : Option String) (votes : List Dict) :
    ((firstVotes h creator votes).map (voterWallet h)).Nodup ∧
      ∀ vote ∈ firstVotes h creator votes, (voterWallet h vote).isSome = true := by
  unfold firstVotes
  have hgrouped := @Scan.grouped_firsts _ _ _ (voterWallet h) (votes.filter fun vote =>
    (voterWallet h vote).isSome && decide (voterWallet h vote ≠ creator))
  refine ⟨hgrouped.distinct, fun vote hvote => ?_⟩
  have hkept := (List.mem_filter.mp (hgrouped.sublist.mem hvote)).2
  exact (Bool.and_eq_true_iff.mp hkept).1

/-- The eligible votes have a wallet each, and the wallets are distinct. -/
theorem eligibleVotes_wallets {decision : Decision} {votes : List Dict} {excluded : List Exclusion}
    (hok : eligibleVoterRewardWallets h c s decision = .ok (votes, excluded)) :
    (votes.map (voterWallet h)).Nodup ∧ ∀ vote ∈ votes, (voterWallet h vote).isSome = true := by
  unfold eligibleVoterRewardWallets at hok
  obtain ⟨summary, -, hok⟩ := bind_eq_ok.mp hok
  obtain ⟨keyed, -, hok⟩ := bind_eq_ok.mp hok
  obtain ⟨sorted, -, hok⟩ := bind_eq_ok.mp hok
  obtain ⟨judged, hjudged, hok⟩ := bind_eq_ok.mp hok
  obtain ⟨rfl, -⟩ := Prod.mk.inj (pure_eq_ok.mp hok)
  obtain ⟨hnodup, hsome⟩ := firstVotes_wallets (h := h) ((c.getSubmission
    decision.submissionId).bind fun submission => normalizeWalletIdentity h.toRuntime
      (submission.creatorWalletAddress.orElse submission.submitter)) (sorted.map Prod.snd)
  generalize firstVotes h _ (sorted.map Prod.snd) = unique at hjudged hnodup hsome
  -- judging keeps the votes and their order
  have hvotes : judged.map Prod.fst = unique := by
    rw [← List.map_id unique]
    refine map_eq_of_mapM (fun vote j hj => ?_) hjudged
    obtain ⟨reason, -, hj⟩ := bind_eq_ok.mp hj
    rw [← pure_eq_ok.mp hj]
    rfl
  have hsub : ((judged.filter fun j => j.2.2.isNone).map Prod.fst).Sublist unique :=
    hvotes ▸ List.filter_sublist.map Prod.fst
  exact ⟨hnodup.sublist (hsub.map _), fun vote hvote => hsome vote (hsub.mem hvote)⟩

/-! ## The plan -/

/-- What holds of an eligible plan for a submission: it splits the pool, and pays every wallet
once and no more than the maximum. -/
structure PlanLaw (h : Host) (s : RewardState) (submissionId : String) (plan : Plan) : Prop where
  decided : ∃ decision, plan.decision = some decision ∧
    (decision.finalDecision = approvalSide ∨ decision.finalDecision = rejectionSide)
  records : ∃ wallets : List String, wallets.Nodup ∧ (∀ w ∈ wallets, ':' ∉ w.toList) ∧
    ∃ decision amount, plan.decision = some decision ∧ decision.submissionId = submissionId ∧
      plan.amountPerVoter = amount ∧
      plan.records = wallets.map (recordFor decision amount)
  shares : ∃ total perWallet maximum : Int,
    rewardUnitsFromAmountString h s.settings.poolPerDecision true = .ok total ∧
    rewardUnitsFromAmountString h s.settings.maxPerWallet true = .ok maximum ∧
    0 < perWallet ∧ (0 < maximum → perWallet ≤ maximum) ∧
    plan.rewardCount = plan.records.length ∧ plan.amountPerVoter = normalizeRewardAmount perWallet ∧
    0 ≤ total - perWallet * plan.rewardCount ∧
    plan.totalDistributed = normalizeRewardAmount (perWallet * plan.rewardCount) ∧
    plan.undistributedRemainder = normalizeRewardAmount (total - perWallet * plan.rewardCount)

theorem decision_of_submission {submissionId : String} {decision : Decision}
    (hok : getSubmissionRewardDecision h c s submissionId = .ok (some decision)) :
    decision.submissionId = submissionId ∧
      (decision.finalDecision = approvalSide ∨ decision.finalDecision = rejectionSide) := by
  unfold getSubmissionRewardDecision at hok
  obtain ⟨submission, -, hok⟩ := bind_eq_ok.mp hok
  obtain ⟨summary, -, hok⟩ := bind_eq_ok.mp hok
  dsimp only at hok
  split at hok
  · cases pure_eq_ok.mp hok
  split at hok
  · obtain ⟨finalizedAt, -, hok⟩ := bind_eq_ok.mp hok
    obtain rfl := Option.some.inj (pure_eq_ok.mp hok)
    exact ⟨rfl, .inl rfl⟩
  split at hok
  · cases pure_eq_ok.mp hok
  split at hok
  · cases pure_eq_ok.mp hok
  · obtain ⟨finalizedAt, -, hok⟩ := bind_eq_ok.mp hok
    obtain rfl := Option.some.inj (pure_eq_ok.mp hok)
    exact ⟨rfl, .inr rfl⟩

/-- The share of a voter, times the voters, is within the pool. -/
theorem sharePerWallet_le (total : Int) (voters : Nat) (maximum : Int) (hpos : 0 < voters) :
    sharePerWallet total voters maximum * voters ≤ total ∧
      (0 < maximum → sharePerWallet total voters maximum ≤ maximum) := by
  have hvoters : (0 : Int) < voters := by exact_mod_cast hpos
  have hdiv : total / voters * voters ≤ total := Int.ediv_mul_le total hvoters.ne'
  unfold sharePerWallet
  split
  · refine ⟨?_, fun _ => min_le_right _ _⟩
    exact (Int.mul_le_mul_of_nonneg_right (min_le_left _ _) hvoters.le).trans hdiv
  · next hmax => exact ⟨hdiv, fun h => absurd h hmax⟩

theorem map_some_filterMap {α β : Type} {f : α → Option β} {xs : List α}
    (hsome : ∀ x ∈ xs, (f x).isSome = true) : (xs.filterMap f).map some = xs.map f := by
  induction xs with
  | nil => rfl
  | cons x xs ih =>
    obtain ⟨hx, hxs⟩ := List.forall_mem_cons.mp hsome
    obtain ⟨y, hy⟩ := Option.isSome_iff_exists.mp hx
    rw [List.filterMap_cons_some hy, List.map_cons, List.map_cons, ih hxs, hy]

/-- What holds of a plan without records: where the submission is decided and rewards are on, the
whole pool remains. -/
structure EmptyPlanLaw (h : Host) (s : RewardState) (plan : Plan) : Prop where
  ineligible : plan.eligible = false
  records : plan.records = []
  count : plan.rewardCount = 0
  remainder : plan.decision.isSome = true → s.settings.enabled = true →
    ∃ total, rewardUnitsFromAmountString h s.settings.poolPerDecision true = .ok total ∧
      plan.undistributedRemainder = normalizeRewardAmount total

theorem roundHalfEven_nonneg {q : Rat} (hq : 0 ≤ q) : 0 ≤ roundHalfEven q := by
  have hfloor : 0 ≤ q.floor := Rat.le_floor_iff.mpr (by exact_mod_cast hq)
  unfold roundHalfEven
  dsimp only
  split_ifs <;> omega

theorem inContext_nonneg {q : Rat} (hq : 0 ≤ q) : 0 ≤ inContext q := by
  unfold inContext
  split_ifs with hzero hneg
  · exact le_rfl
  · exact absurd hneg (not_lt.mpr hq)
  · dsimp only
    rw [one_mul]
    exact mul_nonneg (Nat.cast_nonneg _) (zpow_nonneg (by norm_num) _)

/-- Amounts are not negative. -/
theorem rewardUnits_nonneg {v : Value} {allowZero : Bool} {units : Int}
    (hok : rewardUnitsFromAmountString h v allowZero = .ok units) : 0 ≤ units := by
  obtain ⟨text, htext, hok⟩ := bind_eq_ok.mp hok
  obtain ⟨c, hc, -⟩ := parseNativeZoidAmount_eq_ok htext
  obtain ⟨q, hq, hnonneg, -⟩ := hc.decimal
  rw [hq, ok_bind] at hok
  obtain rfl := Except.ok.inj hok
  exact roundHalfEven_nonneg (inContext_nonneg (mul_nonneg hnonneg (by norm_num)))

/-- A plan is lawful, with records or without. -/
theorem planLaw_of_build {submissionId : String} {plan : Plan}
    (hok : buildSubmissionVoterRewardPlan h c s submissionId = .ok plan) :
    (plan.eligible = true ∧ PlanLaw h s submissionId plan) ∨ EmptyPlanLaw h s plan := by
  unfold buildSubmissionVoterRewardPlan at hok
  obtain ⟨decided, hdecided, hok⟩ := bind_eq_ok.mp hok
  cases decided with
  | none =>
    obtain rfl := pure_eq_ok.mp hok
    exact .inr ⟨rfl, rfl, rfl, fun hsome => Bool.noConfusion hsome⟩
  | some decision =>
    obtain ⟨hid, hside⟩ := decision_of_submission hdecided
    obtain ⟨⟨votes, excluded⟩, hvotes, hok⟩ := bind_eq_ok.mp hok
    obtain ⟨hnodup, hsome⟩ := eligibleVotes_wallets hvotes
    dsimp only at hok
    split at hok
    · next hdisabled =>
      obtain rfl := pure_eq_ok.mp hok
      exact .inr ⟨rfl, rfl, rfl, fun _ henabled => Bool.noConfusion (hdisabled.symm.trans henabled)⟩
    split at hok
    · obtain ⟨total, htotal, hok⟩ := bind_eq_ok.mp hok
      obtain rfl := pure_eq_ok.mp hok
      exact .inr ⟨rfl, rfl, rfl, fun _ _ => ⟨total, htotal, rfl⟩⟩
    next hvoters =>
    obtain ⟨total, htotal, hok⟩ := bind_eq_ok.mp hok
    split at hok
    · next hempty =>
      obtain rfl := pure_eq_ok.mp hok
      obtain rfl : total = 0 := le_antisymm hempty (rewardUnits_nonneg htotal)
      have hzero : "0" = normalizeRewardAmount 0 := by decide +kernel
      exact .inr ⟨rfl, rfl, rfl, fun _ _ => ⟨0, htotal, hzero⟩⟩
    obtain ⟨maximum, hmaximum, hok⟩ := bind_eq_ok.mp hok
    split at hok
    · obtain rfl := pure_eq_ok.mp hok
      exact .inr ⟨rfl, rfl, rfl, fun _ _ => ⟨total, htotal, rfl⟩⟩
    next hshare =>
    obtain rfl := pure_eq_ok.mp hok
    left
    have hmap := map_some_filterMap hsome
    refine ⟨rfl, ⟨decision, rfl, hside⟩, ?_, ?_⟩
    · refine ⟨votes.filterMap (voterWallet h), ?_, fun w hw => ?_, decision, _, rfl, hid, rfl, rfl⟩
      · exact List.Nodup.of_map some (hmap.symm ▸ hnodup)
      · obtain ⟨vote, -, hwallet⟩ := List.mem_filterMap.mp hw
        exact colon_free hwallet
    · have hcount : (votes.filterMap (voterWallet h)).length = votes.length := by
        rw [← List.length_map some, hmap, List.length_map]
      have hpos : 0 < votes.length := List.length_pos_iff.mpr (by simpa using hvoters)
      obtain ⟨hpool, hcap⟩ := sharePerWallet_le total votes.length maximum hpos
      refine ⟨total, _, maximum, htotal, hmaximum, not_le.mp hshare, hcap, rfl, rfl, ?_, rfl, rfl⟩
      dsimp only
      rw [List.length_map, hcount]
      exact sub_nonneg.mpr hpool

/-! ## The groups -/

theorem unitsOf_append {records more : List RewardRecord} {u v : Int}
    (hu : unitsOf h records = .ok u) (hv : unitsOf h more = .ok v) :
    unitsOf h (records ++ more) = .ok (u + v) := by
  obtain ⟨us, hus, hsum⟩ := bind_eq_ok.mp hu
  obtain ⟨vs, hvs, hsum'⟩ := bind_eq_ok.mp hv
  refine bind_eq_ok.mpr ⟨us ++ vs, mapM_append_eq_ok.mpr ⟨us, vs, hus, hvs, rfl⟩, ?_⟩
  rw [List.sum_append, pure_eq_ok.mp hsum, pure_eq_ok.mp hsum']
  rfl

/-- The price of several groups. -/
theorem unitsOf_flatten {priced : List (List RewardRecord × Int)}
    (hpriced : ∀ g ∈ priced, unitsOf h g.1 = .ok g.2) :
    unitsOf h (priced.map Prod.fst).flatten = .ok (priced.map Prod.snd).sum := by
  induction priced with
  | nil => rfl
  | cons g priced ih =>
    obtain ⟨hg, hpriced⟩ := List.forall_mem_cons.mp hpriced
    exact unitsOf_append hg (ih hpriced)

/-- The groups are taken or skipped as a whole, within what remains. -/
theorem selectGroups_spec {due : List RewardRecord} {remaining : Int} {selection : Selection}
    (hremaining : 0 ≤ remaining) (hok : selectGroups h due remaining = .ok selection) :
    (selection.selected ++ selection.skipped).Perm due ∧
      (∃ units, unitsOf h selection.selected = .ok units ∧ units ≤ remaining) ∧
      ∀ id, groupOf due id ⊆ selection.selected ∨ groupOf due id ⊆ selection.skipped := by
  unfold selectGroups at hok
  obtain ⟨priced, hpriced, hok⟩ := bind_eq_ok.mp hok
  obtain rfl := pure_eq_ok.mp hok
  generalize hids : ((due.map fun r => r.decision.submissionId).dedup).insertionSort (· ≤ ·) = ids
    at hpriced
  have hmem : ∀ {id}, id ∈ ids ↔ ∃ r ∈ due, r.decision.submissionId = id := by
    intro id
    rw [← hids, List.mem_insertionSort, List.mem_dedup, List.mem_map]
  have hnodup : ids.Nodup := by
    rw [← hids]
    exact (List.perm_insertionSort _ _).nodup_iff.mpr (List.nodup_dedup _)
  have hrel := forall₂_of_mapM hpriced
  have hgroups : priced.map Prod.fst = ids.map (groupOf due) := by
    refine map_eq_of_mapM (fun id g hg => ?_) hpriced
    obtain ⟨units, -, hg⟩ := bind_eq_ok.mp hg
    rw [← pure_eq_ok.mp hg]
  have hprice : ∀ g ∈ priced, unitsOf h g.1 = .ok g.2 := by
    intro g hg
    obtain ⟨id, -, hstep⟩ := exists_left_of_forall₂ hrel hg
    obtain ⟨units, hunits, hstep⟩ := bind_eq_ok.mp hstep
    rw [← pure_eq_ok.mp hstep]
    exact hunits
  have hperm := Scan.takeFitting_perm remaining priced
  rw [hgroups] at hperm
  obtain ⟨sub, hsub, htaken, hsum⟩ := Scan.takeFitting_spec remaining hremaining priced
  refine ⟨?_, ⟨_, ?_, hsum⟩, fun id => ?_⟩
  · rw [← List.flatten_append]
    refine hperm.flatten.trans ?_
    have hall := Scan.flatMap_groups_perm (fun r : RewardRecord => r.decision.submissionId)
      hnodup due
    rw [List.filter_eq_self.mpr fun r hr => decide_eq_true (hmem.mpr ⟨r, hr, rfl⟩)] at hall
    exact hall
  · rw [← htaken]
    exact unitsOf_flatten fun g hg => hprice g (hsub.mem hg)
  · by_cases hid : id ∈ ids
    · have hgroup : groupOf due id ∈ ids.map (groupOf due) := List.mem_map_of_mem hid
      obtain hmem | hmem := List.mem_append.mp (hperm.mem_iff.mpr hgroup)
      · exact .inl fun r hr => List.mem_flatten.mpr ⟨_, hmem, hr⟩
      · exact .inr fun r hr => List.mem_flatten.mpr ⟨_, hmem, hr⟩
    · left
      intro r hr
      obtain ⟨hr, hsame⟩ := List.mem_filter.mp hr
      exact absurd (hmem.mpr ⟨r, hr, of_decide_eq_true hsame⟩) hid

/-! ## The records that are due -/

/-- What an unsettled record of the plan for a submission tells. -/
structure Record (submissionId : String) (settled : List String) (r : RewardRecord) : Prop where
  submission : r.decision.submissionId = submissionId
  fresh : r.rewardId ∉ settled
  id : ∃ wallet side, ':' ∉ wallet.toList ∧ ':' ∉ side.toList ∧
    r.rewardId = rewardId submissionId wallet side

theorem colon_free_side {decision : Decision}
    (hside : decision.finalDecision = approvalSide ∨ decision.finalDecision = rejectionSide) :
    ':' ∉ decision.finalDecision.toList := by
  obtain h | h := hside <;> rw [h] <;> decide

theorem unsettled_spec {submissionId : String} {plan : Plan} (settled : List String)
    (hok : buildSubmissionVoterRewardPlan h c s submissionId = .ok plan) :
    ((unsettled settled plan).map RewardRecord.rewardId).Nodup ∧
      ∀ r ∈ unsettled settled plan, Record submissionId settled r := by
  unfold unsettled
  obtain ⟨heligible, hlaw⟩ | hempty := planLaw_of_build hok
  · obtain ⟨decision, hdecision, hside⟩ := hlaw.decided
    obtain ⟨wallets, hnodup, hcolon, decision', amount, hdecision', hid, -, hrecords⟩ :=
      hlaw.records
    obtain rfl := Option.some.inj (hdecision.symm.trans hdecision')
    rw [if_pos heligible, hrecords]
    constructor
    · refine List.Nodup.sublist (List.filter_sublist.map _) ?_
      rw [List.map_map]
      refine List.Nodup.map_on (fun w hw w' hw' heq => ?_) hnodup
      exact (rewardId_inj (hcolon w hw) (hcolon w' hw') (colon_free_side hside)
        (colon_free_side hside) heq).2.1
    · intro r hr
      obtain ⟨hr, hfresh⟩ := List.mem_filter.mp hr
      obtain ⟨w, hw, rfl⟩ := List.mem_map.mp hr
      refine ⟨hid, of_decide_eq_true hfresh, w, _, hcolon w hw, colon_free_side hside, ?_⟩
      rw [← hid]
      rfl
  · rw [hempty.ineligible]
    simp

/-- Records of two submissions have different identifiers. -/
theorem Record.submission_eq {id id' : String} {settled settled' : List String}
    {r r' : RewardRecord} (hr : Record id settled r) (hr' : Record id' settled' r')
    (heq : r.rewardId = r'.rewardId) : id = id' := by
  obtain ⟨w, side, hw, hside, hid⟩ := hr.id
  obtain ⟨w', side', hw', hside', hid'⟩ := hr'.id
  exact (rewardId_inj hw hw' hside hside' (hid.symm.trans (heq.trans hid'))).1

/-- The records that are due: those of the plans of all submissions. -/
theorem due_spec {due : List RewardRecord}
    (hids : (s.submissions.map Submission.submissionId).Nodup)
    (hok : dueVoterRewardRecords h c s = .ok due) :
    ∃ settled, settledIds h s.chain = .ok settled ∧ (due.map RewardRecord.rewardId).Nodup ∧
      ∀ r, r ∈ due ↔ ∃ id ∈ s.submissions.map Submission.submissionId, ∃ plan,
        buildSubmissionVoterRewardPlan h c s id = .ok plan ∧ r ∈ unsettled settled plan := by
  unfold dueVoterRewardRecords at hok
  obtain ⟨settled, hsettled, hok⟩ := bind_eq_ok.mp hok
  obtain ⟨plans, hplans, hok⟩ := bind_eq_ok.mp hok
  have hperm := sortPy_perm hok
  have hrel := forall₂_of_mapM hplans
  refine ⟨settled, hsettled, ?_, fun r => ?_⟩
  · rw [(hperm.map RewardRecord.rewardId).nodup_iff]
    clear hplans hok hperm
    generalize s.submissions = submissions at hids hrel
    induction hrel with
    | nil => exact List.nodup_nil
    | @cons submission plan submissions plans hplan hrest ih =>
      obtain ⟨hid, hids⟩ := List.nodup_cons.mp hids
      obtain ⟨hnodup, hrecords⟩ := unsettled_spec settled hplan
      rw [List.flatMap_cons, List.map_append, List.nodup_append]
      refine ⟨hnodup, ih hids, ?_⟩
      rintro _ hx _ hy rfl
      obtain ⟨r, hr, hrEq⟩ := List.mem_map.mp hx
      obtain ⟨r', hr', hrEq'⟩ := List.mem_map.mp hy
      obtain ⟨plan', hplan', hr'⟩ := List.mem_flatMap.mp hr'
      obtain ⟨submission', hsubmission', hbuild'⟩ := exists_left_of_forall₂ hrest hplan'
      have hsame := (hrecords r hr).submission_eq ((unsettled_spec settled hbuild').2 r' hr')
        (hrEq.trans hrEq'.symm)
      exact hid (hsame ▸ List.mem_map_of_mem hsubmission')
  · rw [hperm.mem_iff, List.mem_flatMap]
    constructor
    · rintro ⟨plan, hplan, hr⟩
      obtain ⟨submission, hsubmission, hbuild⟩ := exists_left_of_forall₂ hrel hplan
      exact ⟨_, List.mem_map_of_mem hsubmission, plan, hbuild, hr⟩
    · rintro ⟨id, hid, plan, hbuild, hr⟩
      obtain ⟨submission, hsubmission, rfl⟩ := List.mem_map.mp hid
      obtain ⟨plan', hplan', hbuild'⟩ := exists_right_of_forall₂ hrel hsubmission
      obtain rfl := Except.ok.inj (hbuild.symm.trans hbuild')
      exact ⟨plan, hplan', hr⟩

/-! ## The selection -/

/-- What holds of the records that are chosen for a block, within a budget. -/
structure SelectionLaw (h : Host) (c : RewardCollaborators) (s : RewardState)
    (settled : List String) (budget : Int) (selected : List RewardRecord) : Prop where
  distinct : (selected.map RewardRecord.rewardId).Nodup
  fresh : ∀ r ∈ selected, r.rewardId ∉ settled
  within : ∃ units, unitsOf h selected = .ok units ∧ units ≤ budget
  together : ∀ id plan, buildSubmissionVoterRewardPlan h c s id = .ok plan →
    (∀ r ∈ unsettled settled plan, r ∈ selected) ∨ ∀ r ∈ unsettled settled plan, r ∉ selected

/-- The law of a selection that pays the records of one submission first, if there is one. -/
theorem selectionLaw_of_groups {settled : List String} {due first : List RewardRecord}
    {budget units : Int} {selection : Selection} (firstId : String)
    (hfirst : first = [] ∨ ∃ plan, buildSubmissionVoterRewardPlan h c s firstId = .ok plan ∧
      first = unsettled settled plan)
    (hdue : (due.map RewardRecord.rewardId).Nodup)
    (hmem : ∀ r, r ∈ due ↔ ∃ id ∈ s.submissions.map Submission.submissionId, ∃ plan,
      buildSubmissionVoterRewardPlan h c s id = .ok plan ∧ r ∈ unsettled settled plan)
    (hunits : unitsOf h first = .ok units) (hle : units ≤ budget)
    (hok : selectGroups h (due.filter fun r => r.rewardId ∉ first.map RewardRecord.rewardId)
      (budget - units) = .ok selection) :
    SelectionLaw h c s settled budget (first ++ selection.selected) := by
  obtain ⟨hperm, ⟨units', hunits', hle'⟩, htogether⟩ := selectGroups_spec (by omega) hok
  have hrest : ∀ r, r ∈ selection.selected ∨ r ∈ selection.skipped ↔
      r ∈ due ∧ r.rewardId ∉ first.map RewardRecord.rewardId := by
    intro r
    rw [← List.mem_append, hperm.mem_iff, List.mem_filter, decide_eq_true_eq]
  have hnodup : ((selection.selected ++ selection.skipped).map RewardRecord.rewardId).Nodup := by
    rw [(hperm.map RewardRecord.rewardId).nodup_iff]
    exact hdue.sublist (List.filter_sublist.map _)
  rw [List.map_append, List.nodup_append] at hnodup
  obtain ⟨hselected, -, happart⟩ := hnodup
  have hfirstSpec : (first.map RewardRecord.rewardId).Nodup ∧
      ∀ r ∈ first, Record firstId settled r := by
    obtain rfl | ⟨plan, hplan, rfl⟩ := hfirst
    · simp
    · exact unsettled_spec settled hplan
  refine ⟨?_, fun r hr => ?_, ⟨units + units', unitsOf_append hunits hunits', by omega⟩, ?_⟩
  · rw [List.map_append, List.nodup_append]
    refine ⟨hfirstSpec.1, hselected, ?_⟩
    rintro _ hx _ hy rfl
    obtain ⟨r, hr, heq⟩ := List.mem_map.mp hy
    exact ((hrest r).mp (.inl hr)).2 (heq ▸ hx)
  · obtain hr | hr := List.mem_append.mp hr
    · exact (hfirstSpec.2 r hr).fresh
    · obtain ⟨id, -, plan, hplan, hunsettled⟩ := (hmem r).mp ((hrest r).mp (.inl hr)).1
      exact ((unsettled_spec settled hplan).2 r hunsettled).fresh
  · intro id plan hplan
    obtain ⟨-, hrecords⟩ := unsettled_spec settled hplan
    by_cases hpaid : id = firstId ∧ first ≠ []
    · -- the submission that is paid first
      obtain ⟨rfl, hne⟩ := hpaid
      obtain hempty | ⟨plan', hplan', heq⟩ := hfirst
      · exact absurd hempty hne
      · obtain rfl := Except.ok.inj (hplan.symm.trans hplan')
        exact .inl fun r hr => List.mem_append_left _ (heq ▸ hr)
    have hother : ∀ r ∈ unsettled settled plan, r.rewardId ∉ first.map RewardRecord.rewardId := by
      intro r hr hmem'
      obtain ⟨r', hr', heq⟩ := List.mem_map.mp hmem'
      refine hpaid ⟨(hrecords r hr).submission_eq (hfirstSpec.2 r' hr') heq.symm, ?_⟩
      exact List.ne_nil_of_mem hr'
    have hnotFirst : ∀ r ∈ unsettled settled plan, r ∉ first := fun r hr hmem' =>
      hother r hr (List.mem_map_of_mem hmem')
    by_cases hid : id ∈ s.submissions.map Submission.submissionId
    · have hgroup : ∀ r ∈ unsettled settled plan,
          r ∈ groupOf (due.filter fun r => r.rewardId ∉ first.map RewardRecord.rewardId) id := by
        intro r hr
        refine List.mem_filter.mpr ⟨List.mem_filter.mpr ⟨?_, decide_eq_true (hother r hr)⟩, ?_⟩
        · exact (hmem r).mpr ⟨id, hid, plan, hplan, hr⟩
        · exact decide_eq_true (hrecords r hr).submission
      obtain htaken | hskipped := htogether id
      · exact .inl fun r hr => List.mem_append_right _ (htaken (hgroup r hr))
      · refine .inr fun r hr hboth => ?_
        obtain hboth | hboth := List.mem_append.mp hboth
        · exact hnotFirst r hr hboth
        · exact happart _ (List.mem_map_of_mem hboth) _
            (List.mem_map_of_mem (hskipped (hgroup r hr))) rfl
    · refine .inr fun r hr hboth => ?_
      obtain hboth | hboth := List.mem_append.mp hboth
      · exact hnotFirst r hr hboth
      · obtain ⟨id', hid', plan', hplan', hr'⟩ := (hmem r).mp ((hrest r).mp (.inl hboth)).1
        have hsame := (hrecords r hr).submission_eq ((unsettled_spec settled hplan').2 r hr') rfl
        exact hid (hsame ▸ hid')

namespace SampleRewards

def wallet : String := "0x1111111111111111111111111111111111111111"

def submission : Submission :=
  ⟨"s", "approved", .str "c", .null, .null, .int 0, .null, .null⟩

/-- One ZOID a decision, and no maximum for a wallet. -/
def settings (enabled : Bool) : Settings :=
  ⟨false, false, true, enabled, .str "1", .str "0", 1, 50⟩

def state (enabled : Bool) : RewardState := ⟨[], [submission], .int 0, settings enabled⟩

def vote : Dict :=
  [("voter_wallet_address", .str wallet), ("vote_type", .str voteOriginal), ("created_at", .int 1)]

def collaborators : RewardCollaborators where
  getSubmission id := if id = "s" then some submission else none
  getVotes _ := .ok ⟨[vote], 1, 0, 100⟩
  getCertificate _ := none
  minimumVotes := 1
  windowExpired _ := false
  accessDecision _ := (true, "")
  getWalletBinding _ := none
  getAccessAccount _ := none
  allowlisted _ _ := false
  reviewEligible _ := .ok true
  isoTimestamp _ := none
  now := .ofRat 0

/-- What a call returns, where it returns. -/
theorem exists_of_toOption {α β : Type} {x : Py α} {f : α → β} {b : β}
    (hx : x.toOption.map f = some b) : ∃ a, x = .ok a ∧ f a = b := by
  cases x with
  | error e => cases hx
  | ok a => exact ⟨a, rfl, Option.some.inj hx⟩

end SampleRewards

end ZoidbergChain.Rewards
