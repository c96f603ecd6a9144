import ZoidbergChain.ReviewerEligibility

/-!
# Reviewer status over a growing history

What a later history does to the status at an earlier finalized reference.

- `LaterExtension h` relates a chain and a durable store to an extension of them
  that lies above height `h`.
- The chain side is cut off at the reference: `finalizedContext_extension`, and
  with it the standing of the wallet, never change.
- The store side is not. Penalties are selected by epoch and not by reference
  height, a first recorded penalty hides a recorded cooldown, and the vote that
  stands for a submission is the first one listed, whatever its height.
  `statusAtReference_extension_iff` says exactly when the status is kept.
-/

namespace ZoidbergChain

open Python

variable {rt : Runtime}

/-- The history `(chain', store')` extends `(chain, store)` strictly above `h`:
blocks appended above `h`, accepted votes and penalties whose reference is above
`h`, with the two tables listed in any order. -/
structure LaterExtension (h : Int) (chain chain' : List Dict) (store store' : ReviewerStore) :
    Prop where
  blocks : ∃ added, chain' = chain ++ added ∧
    ∀ block ∈ added, ∃ i, blockIndex block = .ok i ∧ h < i
  votes : ∃ added, store'.votes.Perm (store.votes ++ added) ∧
    ∀ vote ∈ added, vote.lifecycleState = .accepted ∧
      ∃ e, vote.reviewerStatusEffectiveHeight = some e ∧ h < e
  penalties : ∃ added, store'.penalties.Perm (store.penalties ++ added) ∧
    ∀ penalty ∈ added, h < penalty.referenceFinalizedHeight
  transitions : store'.transitions = store.transitions

/-! ## The chain is cut off at the reference -/

theorem blockIndexOrMinusOne_eq {block : Dict} {i : Int} (h : blockIndex block = .ok i) :
    blockIndexOrMinusOne block = .ok i := by
  unfold blockIndex Dict.get at h
  unfold blockIndexOrMinusOne Dict.getD
  cases hb : block.get? "index" with
  | none => rw [hb] at h; simp [Value.toInt] at h
  | some v => rw [hb] at h; exact h

theorem ancestry_append {c added : List Dict} {height : Int}
    (h : ∀ block ∈ added, ∃ i, blockIndex block = .ok i ∧ height < i) :
    ancestry (c ++ added) height = ancestry c height := by
  have hnone : filterPy (fun block => do
      return decide ((← blockIndexOrMinusOne block) ≤ height)) added = .ok [] := by
    refine filterPy_eq_nil fun block hblock => ?_
    obtain ⟨i, hi, hlt⟩ := h block hblock
    simp [blockIndexOrMinusOne_eq hi, pure, Except.pure, hlt]
  unfold ancestry
  rw [filterPy_append, hnone]
  cases filterPy (fun block => do
    return decide ((← blockIndexOrMinusOne block) ≤ height)) c with
  | error e => rfl
  | ok kept => simp

/-- Blocks above the reference are invisible to it. -/
theorem finalizedContext_extension {chain chain' : List Dict} {store store' : ReviewerStore}
    {head : FinalizedHead} (h : LaterExtension head.blockHeight chain chain' store store') :
    finalizedContext rt chain' head = finalizedContext rt chain head := by
  obtain ⟨added, rfl, hadded⟩ := h.blocks
  simp only [finalizedContext, ancestry_append hadded]

theorem frozenStatus_of_penalties {store store' : ReviewerStore} {address : String}
    (height policyVersion ruleVersion : Int) (ht : store'.transitions = store.transitions)
    (hempty : store'.listReviewerPenalties address = [])
    (hempty' : store.listReviewerPenalties address = []) :
    frozenStatus store' address height policyVersion ruleVersion =
      frozenStatus store address height policyVersion ruleVersion := by
  simp [frozenStatus, hempty, hempty', applicableTransitions,
    ReviewerStore.listReviewerStateHistory, ht]

/-- A recorded penalty of the reviewer stays recorded. -/
theorem LaterExtension.penalties_subset {h : Int} {chain chain' : List Dict}
    {store store' : ReviewerStore} (hext : LaterExtension h chain chain' store store')
    {address : String} (hempty : store'.listReviewerPenalties address = []) :
    store.listReviewerPenalties address = [] := by
  obtain ⟨added, hperm, -⟩ := hext.penalties
  simp only [ReviewerStore.listReviewerPenalties, List.filter_eq_nil_iff] at hempty ⊢
  exact fun p hp => hempty p (hperm.mem_iff.mpr (List.mem_append_left _ hp))

/-- A status is frozen only as a cooldown or suspension, and only without penalties. -/
theorem frozenStatus_eq_some {store : ReviewerStore} {address : String}
    {height policyVersion ruleVersion : Int} {status : ReviewerStatus}
    (h : frozenStatus store address height policyVersion ruleVersion = some status) :
    store.listReviewerPenalties address = [] ∧ (status = .cooldown ∨ status = .suspended) := by
  unfold frozenStatus at h
  split at h
  · cases h
  · next hempty =>
    refine ⟨not_not.mp hempty, ?_⟩
    split at h
    · split at h
      · next hstatus => cases h; exact hstatus
      · cases h
    · cases h

/-- An extension freezes no status that was not frozen before. -/
theorem frozenStatus_extension {h : Int} {chain chain' : List Dict}
    {store store' : ReviewerStore} (hext : LaterExtension h chain chain' store store')
    {address : String} {height policyVersion ruleVersion : Int}
    (hnone : frozenStatus store address height policyVersion ruleVersion = none) :
    frozenStatus store' address height policyVersion ruleVersion = none := by
  by_cases hempty : store'.listReviewerPenalties address = []
  · rw [frozenStatus_of_penalties _ _ _ hext.transitions hempty (hext.penalties_subset hempty)]
    exact hnone
  · simp [frozenStatus, hempty]

/-! ## Epochs and standings -/

theorem reviewerPolicy_eq_ok {version : Int} {policy : ReviewerPolicy}
    (h : reviewerPolicy version = .ok policy) : version = 1 := by
  simp only [reviewerPolicy, bind_eq_ok, require_eq_ok] at h
  obtain ⟨-, hv, -⟩ := h
  exact hv

theorem reviewEpoch_one {height : Int} (h : 0 ≤ height) :
    reviewEpoch height 1 = .ok (height / reviewEpochBlocks) := by
  simp [reviewEpoch, reviewerPolicy, reviewerPolicyVersion, require_pos, h, pure, Except.pure]

theorem reviewEpoch_eq_ok {height version epoch : Int}
    (h : reviewEpoch height version = .ok epoch) :
    0 ≤ height := by
  simp only [reviewEpoch, bind_eq_ok, require_eq_ok] at h
  obtain ⟨-, -, -, hpos, -⟩ := h
  exact hpos

/-- A height found by the search is one of those searched. -/
theorem firstQualifiedHeight_mem {address : String} {blocks : List Dict} {policyVersion q : Int}
    {heights : List Int}
    (h : firstQualifiedHeight rt address blocks policyVersion heights = .ok (some q)) :
    q ∈ heights := by
  induction heights with
  | nil => simp [firstQualifiedHeight] at h
  | cons candidate rest ih =>
    rw [firstQualifiedHeight, bind_eq_ok] at h
    obtain ⟨found, -, h⟩ := h
    cases found with
    | none => cases h
    | some block =>
      simp only [bind_eq_ok] at h
      obtain ⟨evidence, -, h⟩ := h
      split at h
      · simp only [Except.ok.injEq, Option.some.injEq] at h
        simp [h]
      · exact List.mem_cons_of_mem _ (ih h)

theorem finalizedContext_height {chain : List Dict} {head : FinalizedHead}
    {context : FinalizedContext} (h : finalizedContext rt chain head = .ok context) :
    context.height = head.blockHeight := by
  simp only [finalizedContext, bind_eq_ok, pure_eq_ok] at h
  obtain ⟨-, -, -, -, -, -, rfl⟩ := h
  rfl

theorem qualification_eq_ok {address : String} {chain : List Dict} {head : FinalizedHead}
    {policyVersion : Int} {evidence : Qualification}
    (h : qualification rt address chain head policyVersion = .ok evidence) :
    0 ≤ head.blockHeight := by
  simp only [qualification, bind_eq_ok] at h
  obtain ⟨-, -, context, hcontext, -, -, epoch, hepoch, -⟩ := h
  rw [← finalizedContext_height hcontext]
  exact reviewEpoch_eq_ok hepoch

/-- A standing that can be evaluated is one of the current policy, which has no
bootstrap grants, at a height. -/
theorem standingAtReference_eq_ok {address : String} {context : FinalizedContext}
    {head : FinalizedHead} {policyVersion : Int} {standing : Standing}
    (h : standingAtReference rt address context head policyVersion = .ok standing) :
    policyVersion = 1 ∧ 0 ≤ head.blockHeight ∧
      (standing = .unqualified ∨ standing = .qualified none ∨
        ∃ q, standing = .qualified (some q) ∧ 0 ≤ q) := by
  simp only [standingAtReference, bind_eq_ok] at h
  obtain ⟨grants, hgrants, h⟩ := h
  obtain ⟨hversion, rfl⟩ : policyVersion = 1 ∧ grants = [] := by
    simp only [bootstrapEstablishedReviewers, bind_eq_ok, pure_eq_ok] at hgrants
    obtain ⟨policy, hpolicy, rfl⟩ := hgrants
    refine ⟨reviewerPolicy_eq_ok hpolicy, ?_⟩
    simp only [reviewerPolicy, bind_eq_ok, pure_eq_ok] at hpolicy
    obtain ⟨-, -, rfl⟩ := hpolicy
    rfl
  simp only [List.not_mem_nil, if_false, bind_eq_ok] at h
  obtain ⟨evidence, hevidence, h⟩ := h
  refine ⟨hversion, qualification_eq_ok hevidence, ?_⟩
  split at h
  · exact Or.inl (pure_eq_ok.mp h).symm
  · simp only [bind_eq_ok, pure_eq_ok] at h
    obtain ⟨found, hfound, rfl⟩ := h
    cases found with
    | none => exact Or.inr (Or.inl rfl)
    | some q =>
      refine Or.inr (Or.inr ⟨q, rfl, ?_⟩)
      have hq := firstQualifiedHeight_mem hfound
      simp only [List.mem_map, List.mem_range] at hq
      omega

/-! ## The status of a standing -/

/-- The earned status at `height`: an established reviewer has served the probation
and cast ten counted votes. -/
def earnedStatus (rt : Runtime) (store : ReviewerStore) (address : String) (height : Int) :
    Standing → ReviewerStatus
  | .bootstrap => .establishedReviewer
  | .unqualified => .new
  | .qualified none => .probationaryReviewer
  | .qualified (some q) =>
    if probationMinDurationEpochs ≤ height / reviewEpochBlocks - q / reviewEpochBlocks ∧
        probationMinValidVotesForPromotion ≤
          (probationVotes rt store address height 1 (some q)).length then
      .establishedReviewer
    else .probationaryReviewer

/-- An earned status is never a penalty. -/
theorem earnedStatus_ne (rt : Runtime) (store : ReviewerStore) (address : String) (height : Int)
    (standing : Standing) :
    earnedStatus rt store address height standing ≠ .cooldown ∧
      earnedStatus rt store address height standing ≠ .suspended := by
  cases standing with
  | bootstrap => simp [earnedStatus]
  | unqualified => simp [earnedStatus]
  | qualified q =>
    cases q with
    | none => simp [earnedStatus]
    | some q => simp only [earnedStatus]; split <;> simp

theorem activeStatus_eq_some {store : ReviewerStore} {address : String} {epoch ruleVersion : Int}
    {status : ReviewerStatus} (h : activeStatus store address epoch ruleVersion = some status) :
    status = .cooldown ∨ status = .suspended := by
  simp only [activeStatus] at h
  split at h
  · cases h
  · split at h
    · exact Or.inr (by simpa using h.symm)
    · exact Or.inl (by simpa using h.symm)

/-- Past the early return the status is the active penalty, or else the earned one. -/
theorem statusOfStanding_eq (rt : Runtime) (store : ReviewerStore) (address : String)
    (ruleVersion : Int) {height : Int} {standing : Standing} (hheight : 0 ≤ height)
    (hstanding : standing = .unqualified ∨ standing = .qualified none ∨
      ∃ q, standing = .qualified (some q) ∧ 0 ≤ q) :
    ∃ st, statusOfStanding rt store address height 1 ruleVersion standing = .ok st ∧
      st.status = (activeStatus store address (height / reviewEpochBlocks) ruleVersion).getD
        (earnedStatus rt store address height standing) := by
  rcases hstanding with rfl | rfl | ⟨q, rfl, hq⟩
  · simp [statusOfStanding, reviewEpoch_one hheight, earnedStatus, pure, Except.pure]
  · simp [statusOfStanding, durationMet, reviewEpoch_one hheight, earnedStatus, pure, Except.pure]
  · simp [statusOfStanding, durationMet, reviewEpoch_one hheight, reviewEpoch_one hq,
      earnedStatus, pure, Except.pure]

/-! ## When the status at a reference is kept -/

/-- The reference can be evaluated from its ancestry. -/
def Evaluates (rt : Runtime) (address : String) (chain : List Dict) (head : FinalizedHead)
    (policyVersion : Int) (standing : Standing) : Prop :=
  ∃ context, finalizedContext rt chain head = .ok context ∧
    standingAtReference rt address context head policyVersion = .ok standing

/-- The exact condition under which an extension of the history keeps the status at
`head`. A frozen status is kept when no penalty is recorded, or when the penalties
that reach back into the epoch of the reference amount to it. Any other status is
kept when the penalties of that epoch amount to the same before and after and,
without one, ten counted probation votes are listed both before and after or
neither. -/
def StatusKept (rt : Runtime) (address : String) (chain : List Dict) (head : FinalizedHead)
    (store store' : ReviewerStore) (policyVersion ruleVersion : Int) : Prop :=
  let height := head.blockHeight
  let epoch := height / reviewEpochBlocks
  let penalty (s : ReviewerStore) := activeStatus s address epoch ruleVersion
  let votes (s : ReviewerStore) (q : Int) := (probationVotes rt s address height 1 (some q)).length
  match frozenStatus store address height policyVersion ruleVersion with
  | some frozen =>
    store'.listReviewerPenalties address = [] ∨
      ((∃ standing, Evaluates rt address chain head policyVersion standing) ∧
        penalty store' = some frozen)
  | none =>
    penalty store' = penalty store ∧
      (penalty store = none → ∀ q,
        Evaluates rt address chain head policyVersion (.qualified (some q)) →
        probationMinDurationEpochs ≤ epoch - q / reviewEpochBlocks →
        (probationMinValidVotesForPromotion ≤ votes store q ↔
          probationMinValidVotesForPromotion ≤ votes store' q))

/-- The earned status changes only by crossing the ten votes of the promotion. -/
theorem earnedStatus_eq_iff {store store' : ReviewerStore} {address : String} {height : Int}
    {standing : Standing} :
    earnedStatus rt store' address height standing = earnedStatus rt store address height standing ↔
      ∀ q, standing = .qualified (some q) →
        probationMinDurationEpochs ≤ height / reviewEpochBlocks - q / reviewEpochBlocks →
        (probationMinValidVotesForPromotion ≤
            (probationVotes rt store address height 1 (some q)).length ↔
          probationMinValidVotesForPromotion ≤
            (probationVotes rt store' address height 1 (some q)).length) := by
  cases standing with
  | bootstrap => simp [earnedStatus]
  | unqualified => simp [earnedStatus]
  | qualified q =>
    cases q with
    | none => simp [earnedStatus]
    | some q =>
      simp only [earnedStatus, Standing.qualified.injEq, Option.some.injEq, forall_eq']
      by_cases hduration : probationMinDurationEpochs ≤
          height / reviewEpochBlocks - q / reviewEpochBlocks
      · by_cases hvotes : probationMinValidVotesForPromotion ≤
            (probationVotes rt store address height 1 (some q)).length <;>
          by_cases hvotes' : probationMinValidVotesForPromotion ≤
            (probationVotes rt store' address height 1 (some q)).length <;>
          simp [hduration, hvotes, hvotes']
      · simp [hduration]

/-- A penalty and an earned status are never the same. -/
theorem getD_eq_getD_iff {penalty penalty' : Option ReviewerStatus}
    {earned earned' : ReviewerStatus}
    (hpenalty : ∀ p, penalty = some p → p = .cooldown ∨ p = .suspended)
    (hpenalty' : ∀ p, penalty' = some p → p = .cooldown ∨ p = .suspended)
    (hearned : earned ≠ .cooldown ∧ earned ≠ .suspended)
    (hearned' : earned' ≠ .cooldown ∧ earned' ≠ .suspended) :
    penalty'.getD earned' = penalty.getD earned ↔
      penalty' = penalty ∧ (penalty = none → earned' = earned) := by
  cases penalty with
  | none =>
    cases penalty' with
    | none => simp
    | some p' => rcases hpenalty' p' rfl with rfl | rfl <;> simp [hearned.1.symm, hearned.2.symm]
  | some p =>
    cases penalty' with
    | none => rcases hpenalty p rfl with rfl | rfl <;> simp [hearned'.1, hearned'.2]
    | some p' => simp

/-- Past the early return, the status after the extension is compared with a given
one by its penalty and its earned part. -/
theorem evaluated_status_iff {chain : List Dict} {head : FinalizedHead} {address : String}
    {store' : ReviewerStore} {policyVersion ruleVersion : Int} {context : FinalizedContext}
    {target : ReviewerStatus} (hcontext : finalizedContext rt chain head = .ok context) :
    (∃ st', (do
        let standing ← standingAtReference rt address context head policyVersion
        statusOfStanding rt store' address context.height policyVersion ruleVersion standing) =
          .ok st' ∧ st'.status = target) ↔
      ∃ standing, Evaluates rt address chain head policyVersion standing ∧
        (activeStatus store' address (head.blockHeight / reviewEpochBlocks) ruleVersion).getD
          (earnedStatus rt store' address head.blockHeight standing) = target := by
  have hheight := finalizedContext_height hcontext
  constructor
  · rintro ⟨st', hst', rfl⟩
    obtain ⟨standing, hstanding, hst'⟩ := bind_eq_ok.mp hst'
    obtain ⟨rfl, hpos, hcases⟩ := standingAtReference_eq_ok hstanding
    obtain ⟨st, hst, hstatus⟩ :=
      statusOfStanding_eq rt store' address ruleVersion hpos hcases
    rw [hheight, hst] at hst'
    cases hst'
    exact ⟨standing, ⟨context, hcontext, hstanding⟩, hstatus.symm⟩
  · rintro ⟨standing, ⟨context', hcontext', hstanding⟩, htarget⟩
    obtain rfl : context' = context := by simpa using hcontext'.symm.trans hcontext
    obtain ⟨rfl, hpos, hcases⟩ := standingAtReference_eq_ok hstanding
    obtain ⟨st, hst, hstatus⟩ :=
      statusOfStanding_eq rt store' address ruleVersion hpos hcases
    refine ⟨st, ?_, hstatus.trans htarget⟩
    rw [hstanding, ok_bind, hheight]
    exact hst

/-- The status at a finalized reference survives an extension of the history above
it if and only if `StatusKept` holds. -/
theorem statusAtReference_extension_iff {reviewerAddress : Value} {address : String}
    {chain chain' : List Dict} {head : FinalizedHead} {store store' : ReviewerStore}
    {policyVersion ruleVersion : Int} {st : StatusAtReference}
    (haddress : NativeTransfer.normalizeWalletAddress rt reviewerAddress = some address)
    (hext : LaterExtension head.blockHeight chain chain' store store')
    (hst : statusAtReference rt reviewerAddress chain head store policyVersion ruleVersion =
      .ok st) :
    (∃ st', statusAtReference rt reviewerAddress chain' head store' policyVersion ruleVersion =
        .ok st' ∧ st'.status = st.status) ↔
      StatusKept rt address chain head store store' policyVersion ruleVersion := by
  simp only [statusAtReference, haddress, finalizedContext_extension hext] at hst ⊢
  simp only [bind_eq_ok] at hst
  obtain ⟨context, hcontext, _, hrules, hst⟩ := hst
  have hheight := finalizedContext_height hcontext
  simp only [hcontext, hrules, ok_bind]
  rw [StatusKept]
  cases hfrozen : frozenStatus store address head.blockHeight policyVersion ruleVersion with
  | some frozen =>
    obtain ⟨hempty, hpenalty⟩ := frozenStatus_eq_some hfrozen
    rw [hheight, hfrozen] at hst
    obtain rfl : _ = st := pure_eq_ok.mp hst
    by_cases hempty' : store'.listReviewerPenalties address = []
    · have hfrozen' := frozenStatus_of_penalties head.blockHeight policyVersion ruleVersion
        hext.transitions hempty' hempty
      simp [hheight, hfrozen', hfrozen, hempty', pure, Except.pure]
    · have hfrozen' : frozenStatus store' address head.blockHeight policyVersion ruleVersion =
          none := by simp [frozenStatus, hempty']
      simp only [hheight, hfrozen', hempty', false_or]
      rw [← hheight, evaluated_status_iff hcontext, hheight]
      constructor
      · rintro ⟨standing, heval, hstatus⟩
        refine ⟨⟨standing, heval⟩, ?_⟩
        -- the earned part cannot be the frozen status, so the penalty is
        cases hactive : activeStatus store' address (head.blockHeight / reviewEpochBlocks)
            ruleVersion with
        | some p => rw [hactive] at hstatus; exact congrArg some hstatus
        | none =>
          rw [hactive] at hstatus
          have hne := earnedStatus_ne rt store' address head.blockHeight standing
          rcases hpenalty with rfl | rfl
          · exact absurd hstatus hne.1
          · exact absurd hstatus hne.2
      · rintro ⟨⟨standing, heval⟩, hactive⟩
        exact ⟨standing, heval, by rw [hactive]; rfl⟩
  | none =>
    rw [hheight, hfrozen] at hst
    have hfrozen' := frozenStatus_extension hext hfrozen
    obtain ⟨standing, heval, hstatus⟩ :=
      (evaluated_status_iff hcontext).mp ⟨st, by rw [hheight]; exact hst, rfl⟩
    simp only [hheight, hfrozen']
    rw [← hheight, evaluated_status_iff hcontext, hheight, ← hstatus]
    -- the standing is that of the base run: it depends on the chain alone
    have hunique : ∀ standing', Evaluates rt address chain head policyVersion standing' →
        standing' = standing := by
      rintro standing' ⟨c', hc', h'⟩
      obtain ⟨c, hc, h⟩ := heval
      obtain rfl : c = c' := by simpa using hc.symm.trans hc'
      simpa using h'.symm.trans h
    let epoch := head.blockHeight / reviewEpochBlocks
    have hsplit :
        (activeStatus store' address epoch ruleVersion).getD
            (earnedStatus rt store' address head.blockHeight standing) =
          (activeStatus store address epoch ruleVersion).getD
            (earnedStatus rt store address head.blockHeight standing) ↔ _ :=
      getD_eq_getD_iff (fun _ => activeStatus_eq_some) (fun _ => activeStatus_eq_some)
        (earnedStatus_ne rt store address head.blockHeight standing)
        (earnedStatus_ne rt store' address head.blockHeight standing)
    rw [earnedStatus_eq_iff] at hsplit
    constructor
    · rintro ⟨standing', heval', hstatus'⟩
      rw [hunique standing' heval'] at hstatus'
      obtain ⟨hpenalty, hvotes⟩ := hsplit.mp hstatus'
      exact ⟨hpenalty, fun hnone q hq => hvotes hnone q (hunique _ hq).symm⟩
    · rintro ⟨hpenalty, hvotes⟩
      exact ⟨standing, heval, hsplit.mpr ⟨hpenalty, fun hnone q hq =>
        hvotes hnone q (hq ▸ heval)⟩⟩

/-! ## A later penalty in the epoch of the reference

A wallet without history is `NEW` at height 0. A penalty whose offense refers to
block 1 starts in epoch 0, the epoch of both blocks, and turns the status at
height 0 into a cooldown. -/

namespace LaterPenalty

def reviewer : String := "0x1111111111111111111111111111111111111111"

def head : FinalizedHead := { blockHeight := 0, blockHash := "aa" }

def chain : List Dict := [[("index", .int 0), ("hash", .str "aa")]]

def chain' : List Dict := chain ++ [[("index", .int 1), ("hash", .str "bb")]]

def store : ReviewerStore := { votes := [], penalties := [], transitions := [] }

def penalty : ReviewerPenalty where
  penaltyId := "offense"
  reviewerAddress := reviewer
  penaltyStatus := .cooldown
  penaltyStartEpoch := 0
  penaltyEndEpoch := 3
  referenceFinalizedHeight := 1
  reputationRuleVersion := 2

def store' : ReviewerStore := { store with penalties := [penalty] }

def before : StatusAtReference where
  status := .new
  underlyingStatus := .new
  bootstrapEstablished := false
  qualificationEffectiveHeight := none

theorem extends_store : LaterExtension head.blockHeight chain chain' store store' where
  blocks := ⟨[[("index", .int 1), ("hash", .str "bb")]], rfl, by
    rintro block hblock
    obtain rfl := List.mem_singleton.mp hblock
    exact ⟨1, by decide, by decide⟩⟩
  votes := ⟨[], List.Perm.refl _, by simp⟩
  penalties := ⟨[penalty], List.Perm.refl _, by decide⟩
  transitions := rfl

theorem status_before :
    statusAtReference asciiRuntime (.str reviewer) chain head store 1 2 = .ok before := by
  decide +kernel

theorem status_after :
    statusAtReference asciiRuntime (.str reviewer) chain' head store' 1 2 =
      .ok { before with status := .cooldown } := by
  decide +kernel

end LaterPenalty

theorem statusAtReference_not_immutable :
    ¬∀ (rt : Runtime) (reviewerAddress : Value) (chain chain' : List Dict) (head : FinalizedHead)
      (store store' : ReviewerStore) (policyVersion ruleVersion : Int) (st : StatusAtReference),
      LaterExtension head.blockHeight chain chain' store store' →
      statusAtReference rt reviewerAddress chain head store policyVersion ruleVersion = .ok st →
      ∃ st', statusAtReference rt reviewerAddress chain' head store' policyVersion ruleVersion =
        .ok st' ∧ st'.status = st.status := by
  intro h
  obtain ⟨st', hst', hstatus⟩ := h asciiRuntime (.str LaterPenalty.reviewer) _ _ _ _ _ 1 2 _
    LaterPenalty.extends_store LaterPenalty.status_before
  rw [LaterPenalty.status_after] at hst'
  cases hst'
  cases hstatus

theorem statusAtReference_extension_iff_later_penalty :
    (∃ st', statusAtReference asciiRuntime (.str LaterPenalty.reviewer) LaterPenalty.chain'
        LaterPenalty.head LaterPenalty.store' 1 2 = .ok st' ∧
        st'.status = LaterPenalty.before.status) ↔
      StatusKept asciiRuntime LaterPenalty.reviewer LaterPenalty.chain LaterPenalty.head
        LaterPenalty.store LaterPenalty.store' 1 2 :=
  statusAtReference_extension_iff (by decide +kernel) LaterPenalty.extends_store
    LaterPenalty.status_before

end ZoidbergChain
