import ZoidbergChain.PeerSync
import ZoidbergChain.ChainHeights
import ZoidbergChain.Scan.Highest

/-!
# Fork choice (fork_choice_service.py, blockchain.py)

A candidate chain replaces the local one when it is valid, keeps the finalized blocks and
outranks it: by the cumulative originality score, then by height, then by the lower hash of
the tip. `adopt_canonical_chain` decides so twice, in memory and over the durable document,
and rebuilds the document for the winner.

- `rank`: the order behind the decisions; `compareSummaryMetrics_replaces`: they follow it.
- `adoptions_converge`: whatever is presented, in any order, the node ends on the chain of
  the highest rank.
-/

namespace ZoidbergChain.ForkChoice

open Python Scan

/-! ## Chains -/

/-- What an originality score adds to a cumulative one, in exact arithmetic. -/
def exactScore (score : Value) : Option Rat := if score.isNone then some 0 else score.number?

/-- A block of a chain: its dictionary and what the fork choice reads of it. -/
structure ForkBlock where
  record : Dict
  index : Int
  hash : String
  score : Rat
  index_eq : record.get "index" = .int index
  hash_eq : record.get "hash" = .str hash
  score_eq : exactScore (record.getD "originality_score" (.int 0)) = some score

/-- `chain_to_dicts`. -/
def chainToDicts (chain : List ForkBlock) : List Dict := chain.map ForkBlock.record

/-- `round(q, 8)`. -/
def roundScore (q : Rat) : Rat := roundHalfEven (q * 10 ^ 8) / 10 ^ 8

/-- `cumulative_originality_score`: blocks at index 0 add nothing. -/
def cumulativeOriginalityScore (chain : List ForkBlock) : Rat :=
  roundScore (chain.foldl
    (fun total block => if block.index = 0 then total else total + block.score) 0)

/-- `chain_height`. -/
def chainHeight (chain : List ForkBlock) : Option Int := chain.getLast?.map ForkBlock.index

/-- `chain_latest_hash`. -/
def chainLatestHash (chain : List ForkBlock) : Option String := chain.getLast?.map ForkBlock.hash

/-! ## Comparisons -/

inductive Decision where
  | replaceWithCandidate
  | keepLocal
  | equivalent
  | invalidCandidate
  deriving DecidableEq

inductive Preferred where
  | candidate
  | localChain
  | equivalent
  deriving DecidableEq

/-- The result of a comparison. -/
structure Comparison where
  localScore : Rat
  candidateScore : Rat
  localHeight : Option Int
  candidateHeight : Option Int
  localLatestHash : Option String
  candidateLatestHash : Option String
  decision : Decision
  preferred : Preferred
  reason : String
  deriving DecidableEq

/-- `compare_summary_metrics`. -/
def compareSummaryMetrics (localScore candidateScore : Rat) (localHeight candidateHeight : Int)
    (localLatestHash candidateLatestHash : String) : Comparison :=
  let result (decision : Decision) (preferred : Preferred) (reason : String) : Comparison :=
    ⟨localScore, candidateScore, some localHeight, some candidateHeight, some localLatestHash,
      some candidateLatestHash, decision, preferred, reason⟩
  if candidateScore > localScore then
    result .replaceWithCandidate .candidate "higher_originality_score"
  else if candidateScore < localScore then
    result .keepLocal .localChain "lower_originality_score"
  else if candidateHeight > localHeight then
    result .replaceWithCandidate .candidate "higher_chain_height"
  else if candidateHeight < localHeight then
    result .keepLocal .localChain "lower_chain_height"
  else if candidateLatestHash < localLatestHash then
    result .replaceWithCandidate .candidate "lower_latest_block_hash"
  else if candidateLatestHash > localLatestHash then
    result .keepLocal .localChain "higher_latest_block_hash"
  else result .equivalent .equivalent "same_latest_block_hash"

/-- The result for a candidate that is not ranked. -/
def invalidCandidate (localChain candidate : List ForkBlock) (reason : String) : Comparison where
  localScore := cumulativeOriginalityScore localChain
  candidateScore := cumulativeOriginalityScore candidate
  localHeight := chainHeight localChain
  candidateHeight := chainHeight candidate
  localLatestHash := chainLatestHash localChain
  candidateLatestHash := chainLatestHash candidate
  decision := .invalidCandidate
  preferred := .localChain
  reason := reason

@[simp] theorem invalidCandidate_decision (localChain candidate : List ForkBlock)
    (reason : String) :
    (invalidCandidate localChain candidate reason).decision = .invalidCandidate := rfl

/-- The metrics of two chains that are not empty, compared. -/
def compareMetrics (localChain candidate : List ForkBlock) (localTip candidateTip : ForkBlock) :
    Comparison :=
  compareSummaryMetrics (cumulativeOriginalityScore localChain)
    (cumulativeOriginalityScore candidate) localTip.index candidateTip.index localTip.hash
    candidateTip.hash

/-- `compare`. -/
def compare (validateChain : List ForkBlock → Py Bool) (localChain candidate : List ForkBlock) :
    Py Comparison :=
  match localChain.getLast?, candidate.getLast? with
  | some localTip, some candidateTip =>
    if candidate.head?.map ForkBlock.hash ≠ localChain.head?.map ForkBlock.hash then
      .ok (invalidCandidate localChain candidate "different_genesis_hash")
    else do
      let valid ← validateChain candidate
      return if valid then compareMetrics localChain candidate localTip candidateTip
        else invalidCandidate localChain candidate "candidate_chain_invalid"
  | _, _ => .ok (invalidCandidate localChain candidate "candidate_chain_invalid")

/-! ## The node -/

/-- What the fork choice reads of a finality record. -/
structure FinalizedBlock where
  blockHeight : Int
  blockHash : String
  deriving DecidableEq

/-- A blockchain document: the chain, the finality records and the other sections. -/
structure Document (δ : Type) where
  chain : List ForkBlock
  finalizedBlocks : List FinalizedBlock
  rest : δ

/-- The state of a node: its live chain, records and sections, and the durable document. -/
structure Node (δ : Type) extends Document δ where
  document : Document δ

/-- The parts of a reorganization that leave the fork choice as it is. -/
structure Backend (δ : Type) where
  /-- `_merge_local_noncanonical_reorg_state`, of the durable sections and the local ones. -/
  mergeLocal : δ → δ → δ
  /-- `rebuild_document`, behind the chain it writes, and the checks of the commit: the
  rebuilt sections and the number of attached blocks. -/
  rebuild : Document δ → List ForkBlock → Py (δ × Nat)

/-- The hash at a height of a chain; of blocks with one height the last one counts. -/
def hashAt (chain : List ForkBlock) (height : Int) : Option String :=
  (chain.reverse.find? fun block => block.index = height).map ForkBlock.hash

/-- `_candidate_preserves_finalized_blocks`. -/
def candidatePreservesFinalizedBlocks (records : List FinalizedBlock)
    (candidate : List ForkBlock) : Prop :=
  ∀ record ∈ records, hashAt candidate record.blockHeight = some record.blockHash

instance (records : List FinalizedBlock) (candidate : List ForkBlock) :
    Decidable (candidatePreservesFinalizedBlocks records candidate) :=
  inferInstanceAs (Decidable (∀ record ∈ records, _))

/-- `str(hash or "").strip().lower()`. -/
def normalHash (h : Host) (hash : String) : String := h.lower (strip hash)

/-- `_candidate_preserves_finality_records`. -/
def candidatePreservesFinalityRecords (h : Host) (candidate : List ForkBlock)
    (records : List FinalizedBlock) : Prop :=
  ∀ record ∈ records, (hashAt candidate record.blockHeight).map (normalHash h) =
    some (normalHash h record.blockHash)

instance (h : Host) (candidate : List ForkBlock) (records : List FinalizedBlock) :
    Decidable (candidatePreservesFinalityRecords h candidate records) :=
  inferInstanceAs (Decidable (∀ record ∈ records, _))

variable {δ : Type}

/-- `is_chain_valid`, as the node in this state answers. -/
def validates (c : Node δ → PeerCollaborators) (node : Node δ) (chain : List ForkBlock) :
    Py Bool :=
  isChainValid (c node) (chainToDicts chain)

/-- `compare_chains_by_originality`. -/
def compareChainsByOriginality (c : Node δ → PeerCollaborators) (node : Node δ)
    (candidate : List ForkBlock) : Py Comparison := do
  let comparison ← compare (validates c node) node.chain candidate
  return if comparison.decision = .replaceWithCandidate ∧
      ¬candidatePreservesFinalizedBlocks node.finalizedBlocks candidate then
    { comparison with
      decision := .invalidCandidate
      preferred := .localChain
      reason := "violates_finalized_chain" }
  else comparison

/-- The report of `adopt_canonical_chain`. -/
structure Report where
  adopted : Bool
  reason : String
  latestBlockHash : Option String
  appended : Nat
  deriving DecidableEq

/-- `CanonicalReorgError`. -/
def reorgError (message : String) : PyError := { exc := .runtimeError, message }

/-- The durable document with the local sections merged into it. -/
def Node.merged (backend : Backend δ) (node : Node δ) : Document δ :=
  { node.document with rest := backend.mergeLocal node.document.rest node.rest }

/-- The part of `mutate` behind the durable comparison. -/
def replaceDocument (c : Node δ → PeerCollaborators) (backend : Backend δ) (node : Node δ)
    (candidate : List ForkBlock) (reason : String) : Py (Document δ × Report) := do
  let document := node.merged backend
  require (candidatePreservesFinalityRecords (c node).host candidate document.finalizedBlocks)
    (reorgError "Winning branch would replace persisted quorum-finalized history.")
  let rebuilt ← backend.rebuild document candidate
  return ({ document with chain := candidate, rest := rebuilt.1 },
    { adopted := true
      reason
      latestBlockHash := chainLatestHash candidate |>.map (normalHash (c node).host)
      appended := rebuilt.2 })

/-- `mutate`: the durable document and the report of the update. -/
def mutate (c : Node δ → PeerCollaborators) (backend : Backend δ) (node : Node δ)
    (candidate : List ForkBlock) : Py (Document δ × Report) :=
  let normal (block : ForkBlock) := normalHash (c node).host block.hash
  if node.document.chain.map normal = candidate.map normal then
    .ok (node.merged backend,
      { adopted := false
        reason := "already_canonical"
        latestBlockHash := (candidate.map normal).getLast?
        appended := 0 })
  else do
    let comparison ← compare (validates c node) node.document.chain candidate
    require (comparison.decision = .replaceWithCandidate)
      (reorgError "Durable canonical head changed before the winning branch could be adopted.")
    replaceDocument c backend node candidate comparison.reason

/-- The node that published a document. -/
def Document.published (document : Document δ) : Node δ := { document with document }

/-- `adopt_canonical_chain`: the answer and the node behind it. -/
def adoptCanonicalChain (c : Node δ → PeerCollaborators) (backend : Backend δ)
    (candidate : List ForkBlock) (node : Node δ) : Py Report × Node δ :=
  match compareChainsByOriginality c node candidate with
  | .error e => (.error e, node)
  | .ok comparison =>
    if comparison.decision ≠ .replaceWithCandidate then
      (.ok ⟨false, comparison.reason, chainLatestHash node.chain, 0⟩, node)
    else
      match mutate c backend node candidate with
      | .error e => (.error e, node)
      | .ok (document, report) => (.ok report, document.published)

/-- The node after the candidates were presented to it one after the other. -/
def present (c : Node δ → PeerCollaborators) (backend : Backend δ) (node : Node δ)
    (presented : List (List ForkBlock)) : Node δ :=
  presented.foldl (fun node candidate => (adoptCanonicalChain c backend candidate node).2) node

/-! ## The order of chains -/

/-- The rank of a chain: the score, then the height, then the lower hash of the tip. -/
def rank (chain : List ForkBlock) : Rat ×ₗ Int ×ₗ Stringᵒᵈ :=
  toLex (cumulativeOriginalityScore chain,
    toLex ((chainHeight chain).getD 0, OrderDual.toDual ((chainLatestHash chain).getD "")))

theorem compareSummaryMetrics_replaces {localScore candidateScore : Rat}
    {localHeight candidateHeight : Int} {localHash candidateHash : String} :
    (compareSummaryMetrics localScore candidateScore localHeight candidateHeight localHash
      candidateHash).decision = .replaceWithCandidate ↔
    localScore < candidateScore ∨ localScore = candidateScore ∧
      (localHeight < candidateHeight ∨ localHeight = candidateHeight ∧
        candidateHash < localHash) := by
  unfold compareSummaryMetrics
  rcases lt_trichotomy localScore candidateScore with hscore | rfl | hscore
  · simp [hscore]
  · rcases lt_trichotomy localHeight candidateHeight with hheight | rfl | hheight
    · simp [hheight]
    · rcases lt_trichotomy localHash candidateHash with hhash | rfl | hhash
      · simp [hhash, hhash.not_gt]
      · simp
      · simp [hhash]
    · simp [hheight, hheight.not_gt, hheight.ne']
  · simp [hscore, hscore.not_gt, hscore.ne']

theorem compareMetrics_replaces {localChain candidate : List ForkBlock}
    {localTip candidateTip : ForkBlock} (hlocal : localChain.getLast? = some localTip)
    (hcandidate : candidate.getLast? = some candidateTip) :
    (compareMetrics localChain candidate localTip candidateTip).decision =
      .replaceWithCandidate ↔ rank localChain < rank candidate := by
  unfold compareMetrics rank chainHeight chainLatestHash
  rw [compareSummaryMetrics_replaces, hlocal, hcandidate]
  simp [Prod.Lex.toLex_lt_toLex]

/-- A candidate replaces a chain if and only if it has the same genesis, is valid and outranks
the chain. -/
theorem compare_replaces {validateChain : List ForkBlock → Py Bool}
    {localChain candidate : List ForkBlock} {comparison : Comparison}
    (hcompare : compare validateChain localChain candidate = .ok comparison) :
    comparison.decision = .replaceWithCandidate ↔
      localChain ≠ [] ∧ candidate ≠ [] ∧
        candidate.head?.map ForkBlock.hash = localChain.head?.map ForkBlock.hash ∧
        validateChain candidate = .ok true ∧ rank localChain < rank candidate := by
  unfold compare at hcompare
  cases hlocal : localChain.getLast? with
  | none =>
    simp only [hlocal, Except.ok.injEq] at hcompare
    subst hcompare
    simp [List.getLast?_eq_none_iff.mp hlocal]
  | some localTip =>
    have hlocalNil : localChain ≠ [] := by
      rintro rfl
      cases hlocal
    cases hcandidate : candidate.getLast? with
    | none =>
      simp only [hlocal, hcandidate, Except.ok.injEq] at hcompare
      subst hcompare
      simp [List.getLast?_eq_none_iff.mp hcandidate]
    | some candidateTip =>
      have hcandidateNil : candidate ≠ [] := by
        rintro rfl
        cases hcandidate
      simp only [hlocal, hcandidate] at hcompare
      by_cases hgenesis : candidate.head?.map ForkBlock.hash = localChain.head?.map ForkBlock.hash
      · rw [if_neg (not_not_intro hgenesis)] at hcompare
        obtain ⟨valid, hvalid, hresult⟩ := bind_eq_ok.mp hcompare
        have hresult := pure_eq_ok.mp hresult
        subst hresult
        cases valid with
        | false => simp [hvalid]
        | true =>
          simp [hvalid, hlocalNil, hcandidateNil, hgenesis,
            compareMetrics_replaces hlocal hcandidate]
      · rw [if_pos hgenesis] at hcompare
        simp only [Except.ok.injEq] at hcompare
        subst hcompare
        simp [hgenesis]

/-- A valid candidate with the genesis of the chain is compared with it. -/
theorem exists_compare {validateChain : List ForkBlock → Py Bool}
    {localChain candidate : List ForkBlock}
    (hgenesis : candidate.head?.map ForkBlock.hash = localChain.head?.map ForkBlock.hash)
    (hlocal : localChain ≠ []) (hvalid : validateChain candidate = .ok true) :
    ∃ comparison, compare validateChain localChain candidate = .ok comparison := by
  have hcandidate : candidate ≠ [] := by
    rintro rfl
    cases localChain with
    | nil => exact hlocal rfl
    | cons first rest => cases hgenesis
  unfold compare
  rw [List.getLast?_eq_some_getLast hlocal, List.getLast?_eq_some_getLast hcandidate]
  simp only [hgenesis, ne_eq, not_true_eq_false, if_false, hvalid]
  exact ⟨_, rfl⟩

theorem compareChainsByOriginality_replaces {c : Node δ → PeerCollaborators} {node : Node δ}
    {candidate : List ForkBlock} {comparison : Comparison}
    (hcompare : compareChainsByOriginality c node candidate = .ok comparison) :
    comparison.decision = .replaceWithCandidate ↔
      (node.chain ≠ [] ∧ candidate ≠ [] ∧
        candidate.head?.map ForkBlock.hash = node.chain.head?.map ForkBlock.hash ∧
        validates c node candidate = .ok true ∧ rank node.chain < rank candidate) ∧
      candidatePreservesFinalizedBlocks node.finalizedBlocks candidate := by
  unfold compareChainsByOriginality at hcompare
  obtain ⟨first, hfirst, hresult⟩ := bind_eq_ok.mp hcompare
  have hresult := pure_eq_ok.mp hresult
  rw [← compare_replaces hfirst, ← hresult]
  by_cases hdecision : first.decision = .replaceWithCandidate <;>
    by_cases hpreserves : candidatePreservesFinalizedBlocks node.finalizedBlocks candidate <;>
    simp [hdecision, hpreserves]

/-! ## Accepted chains carry digests -/

/-- A chain with this genesis whose other blocks have digests for hashes. -/
structure Sound (genesisHash : String) (chain : List ForkBlock) : Prop where
  genesis : chain.head?.map ForkBlock.hash = some genesisHash
  digests : ∀ block ∈ chain.tail, IsHex64 block.hash

/-- A candidate that the node accepts in every state and that keeps the finalized blocks. -/
structure Candidate (c : Node δ → PeerCollaborators) (records : List FinalizedBlock)
    (genesisHash : String) (chain : List ForkBlock) : Prop where
  genesis : chain.head?.map ForkBlock.hash = some genesisHash
  valid : ∀ node, validates c node chain = .ok true
  preserves : candidatePreservesFinalizedBlocks records chain

/-- A candidate with another genesis, that the node accepts in no state, or that conflicts
with the finalized blocks. -/
def Rejected (c : Node δ → PeerCollaborators) (records : List FinalizedBlock)
    (genesisHash : String) (chain : List ForkBlock) : Prop :=
  chain.head?.map ForkBlock.hash ≠ some genesisHash ∨
    (∀ node, validates c node chain ≠ .ok true) ∨ ¬candidatePreservesFinalizedBlocks records chain

variable {c : Node δ → PeerCollaborators} {backend : Backend δ} {node : Node δ}
  {records : List FinalizedBlock} {genesisHash : String} {candidate : List ForkBlock}

theorem Candidate.ne_nil (hcandidate : Candidate c records genesisHash candidate) :
    candidate ≠ [] := by
  rintro rfl
  cases hcandidate.genesis

/-- Every calculated block hash is a SHA-256 digest in hexadecimal. -/
def CalculatesDigests (c : Node δ → PeerCollaborators) : Prop :=
  ∀ node block s, (c node).calculateHashFromDict block = .ok s → IsHex64 s

theorem Candidate.sound (hdigests : CalculatesDigests c)
    (hcandidate : Candidate c records genesisHash candidate) (node : Node δ) :
    Sound genesisHash candidate := by
  refine ⟨hcandidate.genesis, fun block hblock => ?_⟩
  have hvalid := hcandidate.valid node
  unfold validates isChainValid at hvalid
  obtain ⟨activated, -, hrest⟩ := bind_eq_ok.mp hvalid
  cases activated with
  | false => cases hrest
  | true =>
    have haccepted := validateChain_eq_ok hrest
    obtain ⟨i, hi, rfl⟩ := List.getElem_of_mem hblock
    rw [List.length_tail] at hi
    have hlength : i + 1 < (chainToDicts candidate).length := by
      rw [chainToDicts, List.length_map]
      omega
    obtain ⟨v, s, hv, hs, heq⟩ := (haccepted.extends i hlength).hash
    simp only [chainToDicts, List.getElem_map] at hv hs
    have hget := candidate[i + 1].hash_eq
    obtain rfl : v = .str candidate[i + 1].hash := by
      unfold Dict.index at hv
      unfold Dict.get at hget
      split at hv
      · next w hw =>
        rw [hw] at hget
        rw [← Except.ok.inj hv]
        exact hget
      · cases hv
    have hsame : candidate[i + 1].hash = s := by simpa [Value.pyEq] using heq
    rw [List.getElem_tail, hsame]
    exact hdigests node _ s hs

theorem normalHash_of_digest {h : Host} {hash : String} (hhash : IsHex64 hash) :
    normalHash h hash = hash := by
  rw [normalHash, hhash.strip_eq, hhash.lower_eq]

/-- The last block of a chain that is longer than the genesis. -/
theorem getLast?_of_tail {chain : List ForkBlock} (htail : chain.tail ≠ []) :
    ∃ block ∈ chain.tail, chain.getLast? = some block := by
  match chain with
  | [] | [_] => exact absurd rfl htail
  | first :: second :: rest =>
    refine ⟨(second :: rest).getLast (by simp), List.getLast_mem _, ?_⟩
    rw [List.getLast?_cons_cons, List.getLast?_eq_some_getLast]

/-- Sound chains whose normal hashes agree have the same tip hash. -/
theorem latestHash_of_normal {h : Host} {chain chain' : List ForkBlock}
    (hchain : Sound genesisHash chain) (hchain' : Sound genesisHash chain')
    (hsame : chain.map (fun block => normalHash h block.hash) =
      chain'.map fun block => normalHash h block.hash) :
    chainLatestHash chain = chainLatestHash chain' := by
  have hlength : chain.length = chain'.length := by simpa using congrArg List.length hsame
  by_cases htail : chain.tail = []
  · -- only the genesis
    have htail' : chain'.tail = [] := by
      rw [← List.length_eq_zero_iff, List.length_tail] at htail ⊢
      omega
    have hone : ∀ {xs : List ForkBlock}, Sound genesisHash xs → xs.tail = [] →
        chainLatestHash xs = some genesisHash := by
      intro xs hxs hnil
      match xs, hxs.genesis with
      | [_], hgenesis => exact hgenesis
      | _ :: _ :: _, _ => cases hnil
    rw [hone hchain htail, hone hchain' htail']
  · have htail' : chain'.tail ≠ [] := by
      intro hnil
      rw [← List.length_eq_zero_iff, List.length_tail] at htail hnil
      omega
    obtain ⟨block, hblock, hlast⟩ := getLast?_of_tail htail
    obtain ⟨block', hblock', hlast'⟩ := getLast?_of_tail htail'
    have hlasts := congrArg List.getLast? hsame
    rw [List.getLast?_map, List.getLast?_map, hlast, hlast', Option.map_some, Option.map_some,
      normalHash_of_digest (hchain.digests _ hblock),
      normalHash_of_digest (hchain'.digests _ hblock')] at hlasts
    rw [chainLatestHash, chainLatestHash, hlast, hlast']
    exact hlasts

/-! ## Adoptions -/

/-- The document rebuild succeeds when this candidate is presented, if it comes to it. -/
def Rebuilds (c : Node δ → PeerCollaborators) (backend : Backend δ) (node : Node δ)
    (candidate : List ForkBlock) : Prop :=
  ∀ comparison, compareChainsByOriginality c node candidate = .ok comparison →
    comparison.decision = .replaceWithCandidate →
    ∃ rebuilt, backend.rebuild (node.merged backend) candidate = .ok rebuilt

/-- Every rebuild succeeds while the candidates are presented. -/
def RebuildsSucceed (c : Node δ → PeerCollaborators) (backend : Backend δ) :
    Node δ → List (List ForkBlock) → Prop
  | _, [] => True
  | node, candidate :: rest => Rebuilds c backend node candidate ∧
    RebuildsSucceed c backend (adoptCanonicalChain c backend candidate node).2 rest

/-- The live chain and the finality records are the durable ones; `chains` holds the live
chain. -/
structure InSync (records : List FinalizedBlock) (chains : Set (List ForkBlock))
    (node : Node δ) : Prop where
  mem : node.chain ∈ chains
  finalized : node.finalizedBlocks = records
  documentChain : node.document.chain = node.chain
  documentFinalized : node.document.finalizedBlocks = records

theorem adopt_rejected (hgenesis : node.chain.head?.map ForkBlock.hash = some genesisHash)
    (hfinalized : node.finalizedBlocks = records)
    (hrejected : Rejected c records genesisHash candidate) :
    (adoptCanonicalChain c backend candidate node).2 = node := by
  unfold adoptCanonicalChain
  cases hcompare : compareChainsByOriginality c node candidate with
  | error e => rfl
  | ok comparison =>
    have hkeeps : comparison.decision ≠ .replaceWithCandidate := by
      intro hreplaces
      obtain ⟨⟨-, -, hsame, hvalid, -⟩, hpreserves⟩ :=
        (compareChainsByOriginality_replaces hcompare).mp hreplaces
      rw [hfinalized] at hpreserves
      rcases hrejected with hother | hinvalid | hconflicts
      · exact hother (hsame.trans hgenesis)
      · exact hinvalid node hvalid
      · exact hconflicts hpreserves
    simp only [if_pos hkeeps]

/-- What keeps the finalized blocks in memory keeps them in the document. -/
theorem preserves_records {h : Host}
    (hpreserves : candidatePreservesFinalizedBlocks records candidate) :
    candidatePreservesFinalityRecords h candidate records := fun record hrecord => by
  rw [hpreserves record hrecord, Option.map_some]

/-- The update of the document, once the candidate replaces the live chain. -/
theorem mutate_eq {chains : Set (List ForkBlock)} (hsync : InSync records chains node)
    (hcandidate : Candidate c records genesisHash candidate)
    (hgenesis : node.chain.head?.map ForkBlock.hash = some genesisHash)
    (hdiffers : node.chain.map (fun block => normalHash (c node).host block.hash) ≠
      candidate.map fun block => normalHash (c node).host block.hash)
    (hrank : rank node.chain < rank candidate) {rebuilt : δ × Nat}
    (hrebuilt : backend.rebuild (node.merged backend) candidate = .ok rebuilt) :
    ∃ report, mutate c backend node candidate = .ok (⟨candidate, records, rebuilt.1⟩, report) := by
  have hnil : node.chain ≠ [] := by
    intro hnil
    rw [hnil] at hgenesis
    cases hgenesis
  obtain ⟨comparison, hcompare⟩ := exists_compare
    (hcandidate.genesis.trans hgenesis.symm) hnil (hcandidate.valid node)
  have hreplaces := (compare_replaces hcompare).mpr
    ⟨hnil, hcandidate.ne_nil, hcandidate.genesis.trans hgenesis.symm, hcandidate.valid node, hrank⟩
  have hrecords : candidatePreservesFinalityRecords (c node).host candidate
      (node.merged backend).finalizedBlocks := by
    rw [Node.merged, hsync.documentFinalized]
    exact preserves_records hcandidate.preserves
  unfold mutate
  simp only [hsync.documentChain, if_neg hdiffers, hcompare, ok_bind, require_pos hreplaces,
    replaceDocument, require_pos hrecords, hrebuilt]
  simp only [Node.merged, hsync.documentFinalized]
  exact ⟨_, rfl⟩

/-- One presentation of an acceptable candidate: the node holds the higher one of the two
chains, in memory and in the document. -/
theorem adopt_candidate {chains : Set (List ForkBlock)}
    (hsound : ∀ chain ∈ chains, Sound genesisHash chain)
    (hdistinct : chains.InjOn chainLatestHash) (hsync : InSync records chains node)
    (hmem : candidate ∈ chains) (hcandidate : Candidate c records genesisHash candidate)
    (hrebuilds : Rebuilds c backend node candidate) :
    InSync records chains (adoptCanonicalChain c backend candidate node).2 ∧
      (adoptCanonicalChain c backend candidate node).2.chain =
        if rank node.chain < rank candidate then candidate else node.chain := by
  have hsoundLocal := hsound _ hsync.mem
  have hgenesis := hsoundLocal.genesis
  have hnil : node.chain ≠ [] := by
    intro hnil
    rw [hnil] at hgenesis
    cases hgenesis
  have hsame := hcandidate.genesis.trans hgenesis.symm
  obtain ⟨first, hfirst⟩ := exists_compare hsame hnil (hcandidate.valid node)
  obtain ⟨comparison, hcompare⟩ : ∃ comparison,
      compareChainsByOriginality c node candidate = .ok comparison := by
    unfold compareChainsByOriginality
    rw [hfirst]
    exact ⟨_, rfl⟩
  have hiff := compareChainsByOriginality_replaces hcompare
  unfold adoptCanonicalChain
  simp only [hcompare]
  by_cases hrank : rank node.chain < rank candidate
  · have hpreserves : candidatePreservesFinalizedBlocks node.finalizedBlocks candidate := by
      rw [hsync.finalized]
      exact hcandidate.preserves
    have hreplaces := hiff.mpr
      ⟨⟨hnil, hcandidate.ne_nil, hsame, hcandidate.valid node, hrank⟩, hpreserves⟩
    obtain ⟨rebuilt, hrebuilt⟩ := hrebuilds comparison hcompare hreplaces
    -- equal normal hashes would make the candidate the live chain, which it outranks
    have hdiffers : node.chain.map (fun block => normalHash (c node).host block.hash) ≠
        candidate.map fun block => normalHash (c node).host block.hash := by
      intro heq
      have htips := latestHash_of_normal hsoundLocal (hsound _ hmem) heq
      rw [hdistinct hsync.mem hmem htips] at hrank
      exact lt_irrefl _ hrank
    obtain ⟨report, hmutate⟩ := mutate_eq hsync hcandidate hgenesis hdiffers hrank hrebuilt
    simp only [if_neg (not_not_intro hreplaces), hmutate, if_pos hrank]
    exact ⟨⟨hmem, rfl, rfl, rfl⟩, rfl⟩
  · have hkeeps : comparison.decision ≠ .replaceWithCandidate := fun hreplaces =>
      hrank (hiff.mp hreplaces).1.2.2.2.2
    simp only [if_pos hkeeps, if_neg hrank, and_true]
    exact hsync

theorem Candidate.not_rejected (hcandidate : Candidate c records genesisHash candidate)
    (node : Node δ) : ¬Rejected c records genesisHash candidate := by
  rintro (hother | hinvalid | hconflicts)
  · exact hother hcandidate.genesis
  · exact hinvalid node (hcandidate.valid node)
  · exact hconflicts hcandidate.preserves

/-- A run: the node ends on the highest chain of those it held and was presented. -/
theorem present_highest {candidates chains held : Set (List ForkBlock)}
    (hsound : ∀ chain ∈ chains, Sound genesisHash chain)
    (hdistinct : chains.InjOn chainLatestHash) (hchains : candidates ⊆ chains)
    (hcandidates : ∀ chain ∈ candidates, Candidate c records genesisHash chain)
    {presented : List (List ForkBlock)}
    (hpresented : ∀ chain ∈ presented,
      chain ∈ candidates ∨ Rejected c records genesisHash chain)
    (hsync : InSync records chains node) (hheld : Highest rank held node.chain)
    (hrebuilds : RebuildsSucceed c backend node presented) :
    InSync records chains (present c backend node presented) ∧
      Highest rank (held ∪ {chain | chain ∈ presented ∧ chain ∈ candidates})
        (present c backend node presented).chain := by
  induction presented generalizing node held with
  | nil =>
    refine ⟨hsync, ?_⟩
    simpa [present] using hheld
  | cons candidate rest ih =>
    obtain ⟨hrebuild, hrest⟩ := hrebuilds
    have hpresentedRest := fun chain hchain => hpresented chain (List.mem_cons_of_mem _ hchain)
    rcases hpresented candidate (by simp) with hmem | hrejected
    · obtain ⟨hsync', hchain⟩ := adopt_candidate hsound hdistinct hsync (hchains hmem)
        (hcandidates _ hmem) hrebuild
      have hheld' : Highest rank (insert candidate held)
          (adoptCanonicalChain c backend candidate node).2.chain := by
        rw [hchain]
        exact hheld.insert candidate
      obtain ⟨hend, hhighest⟩ := ih hpresentedRest hsync' hheld' hrest
      refine ⟨hend, ?_⟩
      have hsets : insert candidate held ∪ {chain | chain ∈ rest ∧ chain ∈ candidates} =
          held ∪ {chain | chain ∈ candidate :: rest ∧ chain ∈ candidates} := by
        ext chain
        simp only [Set.mem_union, Set.mem_insert_iff, Set.mem_ofPred_eq, List.mem_cons]
        constructor
        · rintro ((rfl | hin) | ⟨hin, hcand⟩)
          · exact .inr ⟨.inl rfl, hmem⟩
          · exact .inl hin
          · exact .inr ⟨.inr hin, hcand⟩
        · rintro (hin | ⟨rfl | hin, hcand⟩)
          · exact .inl (.inr hin)
          · exact .inl (.inl rfl)
          · exact .inr ⟨hin, hcand⟩
      rwa [hsets] at hhighest
    · have hstays : (adoptCanonicalChain c backend candidate node).2 = node :=
        adopt_rejected (hsound _ hsync.mem).genesis hsync.finalized hrejected
      rw [hstays] at hrest
      obtain ⟨hend, hhighest⟩ := ih hpresentedRest hsync hheld hrest
      have hrun : present c backend node (candidate :: rest) = present c backend node rest := by
        simp only [present, List.foldl_cons, hstays]
      rw [hrun]
      refine ⟨hend, ?_⟩
      have hsets : ({chain | chain ∈ candidate :: rest ∧ chain ∈ candidates} :
          Set (List ForkBlock)) = {chain | chain ∈ rest ∧ chain ∈ candidates} := by
        ext chain
        simp only [Set.mem_ofPred_eq, List.mem_cons]
        constructor
        · rintro ⟨rfl | hin, hcand⟩
          · exact absurd hrejected ((hcandidates _ hcand).not_rejected node)
          · exact ⟨hin, hcand⟩
        · exact fun ⟨hin, hcand⟩ => ⟨.inr hin, hcand⟩
      rwa [hsets]

/-- Distinct tips give distinct ranks to chains that are not empty. -/
theorem rank_injOn {chains : Set (List ForkBlock)}
    (hsound : ∀ chain ∈ chains, Sound genesisHash chain)
    (hdistinct : chains.InjOn chainLatestHash) : chains.InjOn rank := by
  have htip : ∀ chain ∈ chains, ∃ hash, chainLatestHash chain = some hash := by
    intro chain hchain
    have hgenesis := (hsound chain hchain).genesis
    have hnil : chain ≠ [] := by
      rintro rfl
      cases hgenesis
    exact ⟨_, by rw [chainLatestHash, List.getLast?_eq_some_getLast hnil]; rfl⟩
  intro x hx y hy heq
  obtain ⟨hash, hhash⟩ := htip x hx
  obtain ⟨hash', hhash'⟩ := htip y hy
  have hinner := (Prod.mk.inj (toLex_inj.mp heq)).2
  have htips := OrderDual.toDual_inj.mp (Prod.mk.inj (toLex_inj.mp hinner)).2
  rw [hhash, hhash', Option.getD_some, Option.getD_some] at htips
  exact hdistinct hx hy (by rw [hhash, hhash', htips])

/-- The fork choice converges. A node is presented candidates that are valid whatever its state
and keep the finalized blocks, each at least once, in any order and mixed with chains it has to
refuse; their tips and the tip of its own chain differ. While every document rebuild succeeds
it ends, in memory and in the document, on the one chain that outranks all the others. -/
theorem adoptions_converge (c : Node δ → PeerCollaborators) (backend : Backend δ)
    (hdigests : CalculatesDigests c) (node : Node δ) (genesisHash : String)
    (hstart : Sound genesisHash node.chain) (hsync : node.document.chain = node.chain)
    (hfinalized : node.document.finalizedBlocks = node.finalizedBlocks)
    (candidates : Set (List ForkBlock))
    (hcandidates : ∀ chain ∈ candidates, Candidate c node.finalizedBlocks genesisHash chain)
    (hdistinct : (insert node.chain candidates).InjOn chainLatestHash)
    (presented : List (List ForkBlock)) (hall : ∀ chain ∈ candidates, chain ∈ presented)
    (hothers : ∀ chain ∈ presented,
      chain ∈ candidates ∨ Rejected c node.finalizedBlocks genesisHash chain)
    (hrebuilds : RebuildsSucceed c backend node presented) :
    (present c backend node presented).document.chain = (present c backend node presented).chain ∧
      ∀ chain, chain = (present c backend node presented).chain ↔
        Highest rank (insert node.chain candidates) chain := by
  have hsound : ∀ chain ∈ insert node.chain candidates, Sound genesisHash chain := by
    rintro chain (rfl | hchain)
    · exact hstart
    · exact (hcandidates chain hchain).sound hdigests node
  obtain ⟨hend, hhighest⟩ := present_highest hsound hdistinct (Set.subset_insert _ _) hcandidates
    hothers ⟨Set.mem_insert _ _, rfl, hsync, hfinalized⟩ (highest_singleton node.chain) hrebuilds
  have hsets : {node.chain} ∪ {chain | chain ∈ presented ∧ chain ∈ candidates} =
      insert node.chain candidates := by
    ext chain
    simp only [Set.mem_union, Set.mem_singleton_iff, Set.mem_ofPred_eq, Set.mem_insert_iff]
    exact or_congr_right ⟨fun h => h.2, fun h => ⟨hall chain h, h⟩⟩
  rw [hsets] at hhighest
  refine ⟨hend.documentChain, fun chain => ⟨?_, fun hother => ?_⟩⟩
  · rintro rfl
    exact hhighest
  · exact hother.eq (rank_injOn hsound hdistinct) hhighest

/-! ## Two branches above the genesis -/

namespace Sample

/-- A node that calculates the hash a block carries, if that is a digest. -/
def collaborators : PeerCollaborators :=
  { SampleNode.peerNode with
    calculateHashFromDict := fun block =>
      match block.get "hash" with
      | .str s => if IsHex64 s then .ok s else .error (.value "hash")
      | _ => .error (.value "hash") }

def lowHash : String := "aaaaaaaaaaaaaaaaaaaaaaaaaaaaaaaaaaaaaaaaaaaaaaaaaaaaaaaaaaaaaaaa"

def highHash : String := "bbbbbbbbbbbbbbbbbbbbbbbbbbbbbbbbbbbbbbbbbbbbbbbbbbbbbbbbbbbbbbbb"

def genesisBlock : ForkBlock := ⟨SampleNode.genesis, 0, "g", 0, rfl, rfl, by decide⟩

/-- The chain of one block with this hash above the genesis. -/
def branch (hash : String) : List ForkBlock :=
  [genesisBlock, ⟨SampleNode.admissionBlock 1 hash "g", 1, hash, 1, rfl, rfl, by
    change exactScore (.int 1) = some 1
    decide⟩]

/-- A node with nothing but the genesis, which is finalized. -/
def start : Node Unit := Document.published ⟨[genesisBlock], [⟨0, "g"⟩], ()⟩

def unitBackend : Backend Unit where
  mergeLocal _ _ := ()
  rebuild _ _ := .ok ((), 1)

theorem calculatesDigests : CalculatesDigests fun _ : Node Unit => collaborators := by
  intro _ block s hs
  simp only [collaborators] at hs
  split at hs
  · split at hs
    · next hhex => exact Except.ok.inj hs ▸ hhex
    · cases hs
  · cases hs

theorem candidate_branch {hash : String} (hvalid :
    (isChainValid collaborators (chainToDicts (branch hash))).toOption = some true) :
    Candidate (fun _ : Node Unit => collaborators) start.finalizedBlocks "g" (branch hash) where
  genesis := rfl
  valid _ := eq_ok_of_toOption hvalid
  preserves record hrecord := by
    obtain rfl := List.mem_singleton.mp hrecord
    rfl

def presentations : List (List ForkBlock) := [branch highHash, [], branch lowHash, branch highHash]

/-- Both branches and the chain of the genesis. -/
def chains : Set (List ForkBlock) := insert start.chain {branch lowHash, branch highHash}

theorem injOn_chains : chains.InjOn chainLatestHash := by
  intro x hx y hy
  simp only [chains, Set.mem_insert_iff, Set.mem_singleton_iff] at hx hy
  rcases hx with rfl | rfl | rfl <;> rcases hy with rfl | rfl | rfl <;>
    first | exact fun _ => rfl | exact fun h => absurd h (by decide)

theorem highest_branch : Highest rank chains (branch lowHash) := by
  refine ⟨by simp [chains], fun y hy => ?_⟩
  simp only [chains, Set.mem_insert_iff, Set.mem_singleton_iff] at hy
  rcases hy with rfl | rfl | rfl <;> decide +kernel

theorem candidates_branches : ∀ chain ∈ ({branch lowHash, branch highHash} : Set _),
    Candidate (fun _ : Node Unit => collaborators) start.finalizedBlocks "g" chain := by
  rintro chain (rfl | rfl) <;> exact candidate_branch (by decide +kernel)

end Sample

/-- Presented the higher tip, a broken chain, the lower tip and the higher tip again, the node
ends on the branch with the lower tip. -/
theorem adoptions_converge_sample :
    (present (fun _ => Sample.collaborators) Sample.unitBackend Sample.start
      Sample.presentations).document.chain = Sample.branch Sample.lowHash := by
  obtain ⟨hdocument, hhighest⟩ := adoptions_converge (fun _ => Sample.collaborators)
    Sample.unitBackend Sample.calculatesDigests Sample.start "g" ⟨rfl, by simp [Sample.start,
      Document.published]⟩ rfl rfl {Sample.branch Sample.lowHash, Sample.branch Sample.highHash}
    Sample.candidates_branches Sample.injOn_chains Sample.presentations
    (by simp [Sample.presentations]) (by
      intro chain hchain
      simp only [Sample.presentations, List.mem_cons, List.not_mem_nil, or_false] at hchain
      rcases hchain with rfl | rfl | rfl | rfl
      · exact .inl (by simp)
      · exact .inr (.inl (by simp))
      · exact .inl (by simp)
      · exact .inl (by simp))
    ⟨fun _ _ _ => ⟨_, rfl⟩, fun _ _ _ => ⟨_, rfl⟩, fun _ _ _ => ⟨_, rfl⟩,
      fun _ _ _ => ⟨_, rfl⟩, trivial⟩
  rw [hdocument]
  exact ((hhighest _).mpr Sample.highest_branch).symm

end ZoidbergChain.ForkChoice
