import ZoidbergChain.Host
import ZoidbergChain.Scan.Resume

/-!
# The look-ups of post-mint disputes (blockchain.py)

A dispute names a submission. `_finalized_dispute_block` finds its media block with an index
of the chain, `_is_finalized_dispute_reference` tests a reference with a set of the finality
records. Both are kept between calls and extended behind the length they were made for,
while the chain and the records they are about are replaced by other parts of the node.

- `lookups_eq_scans`: in every run both answer as a plain scan of the current lists does.
-/

namespace ZoidbergChain.DisputeCache

open Python Scan

/-- What the look-ups read of a block. -/
structure MediaBlock where
  index : Nat
  hash : String
  previousHash : String
  submissionId : Option String
  mediaBytes : Option ByteArray
  blockVersion : Option Int
  networkId : Option String
  mediaHash : Option String
  contentHash : Option String
  deriving DecidableEq

/-- What they read of a finality record. -/
structure FinalityRecord where
  blockHeight : Nat
  blockHash : String
  deriving DecidableEq

/-- The chain, the finality records and what is kept of either. -/
structure Node where
  chain : List MediaBlock
  finalizedBlocks : List FinalityRecord
  /-- Whether `_require_finality_available` passes. -/
  finalityAvailable : Bool
  /-- `_dispute_block_index`, `_dispute_index_length`, `_dispute_index_last_hash`. -/
  blockIndex : Kept (Finmap fun _ : String => Nat) String
  /-- `_dispute_finality_index`, `_dispute_finality_length`, `_dispute_finality_last`. -/
  finalityIndex : Kept (Finset (Int × String)) (Nat × String)

/-- The submission identifier of a block that enters the index: not empty, and the block
carries media bytes. -/
def MediaBlock.indexedAs (block : MediaBlock) : Option String :=
  if block.mediaBytes.isSome then block.submissionId.filter (· ≠ "") else none

/-- The block index after one more block. -/
def indexBlock (indexed : Finmap fun _ : String => Nat) (block : MediaBlock) :
    Finmap fun _ : String => Nat :=
  match block.indexedAs with
  | some submissionId => indexed.insert submissionId block.index
  | none => indexed

/-- The finality index after one more record. -/
def indexRecord (h : Host) (known : Finset (Int × String)) (record : FinalityRecord) :
    Finset (Int × String) :=
  insert ((record.blockHeight : Int), h.lower record.blockHash) known

/-- `(record.get("block_height"), record.get("block_hash"))`. -/
def FinalityRecord.reference (record : FinalityRecord) : Nat × String :=
  (record.blockHeight, record.blockHash)

/-- The index of a whole chain, as the constructor builds it. -/
def scanChain (chain : List MediaBlock) : Kept (Finmap fun _ : String => Nat) String :=
  scan indexBlock ∅ MediaBlock.hash chain

/-- The index of all finality records, as the constructor builds it. -/
def scanRecords (h : Host) (records : List FinalityRecord) :
    Kept (Finset (Int × String)) (Nat × String) :=
  scan (indexRecord h) ∅ FinalityRecord.reference records

/-- `sequence[i]`: a negative place counts from the end. -/
def itemAt {α : Type} (xs : List α) (i : Int) : Py α :=
  let place := if i < 0 then i + xs.length else i
  match if place < 0 then none else xs[place.toNat]? with
  | some x => .ok x
  | none => .error { exc := .indexError, message := "list index out of range" }

/-- `_require_finality_available`. -/
def Node.requireFinalityAvailable (s : Node) : Py Unit :=
  if s.finalityAvailable then .ok () else .error { exc := .runtimeError, message :=
    "Finality storage outcome is unavailable; reload durable state before using finality." }

/-- The block index is brought up to date with the chain. -/
def Node.resumeBlocks (s : Node) : Node :=
  { s with blockIndex := resume indexBlock ∅ MediaBlock.hash s.blockIndex s.chain }

/-- The finality index is brought up to date with the records. -/
def Node.resumeRecords (h : Host) (s : Node) : Node :=
  { s with
    finalityIndex := resume (indexRecord h) ∅ FinalityRecord.reference s.finalityIndex
      s.finalizedBlocks }

/-- The answer of `_is_finalized_dispute_reference` once the index is up to date. -/
def Node.referenceAnswer (h : Host) (s : Node) (height : Int) (blockHash : String) : Py Bool :=
  if height < s.chain.length then do
    let block ← itemAt s.chain height
    return decide (h.lower block.hash = h.lower blockHash)
      && decide ((height, h.lower blockHash) ∈ s.finalityIndex.value)
  else .ok false

/-- `_is_finalized_dispute_reference`. -/
def isFinalizedDisputeReference (h : Host) (height : Int) (blockHash : String) (s : Node) :
    Py Bool × Node :=
  match s.requireFinalityAvailable with
  | .error e => (.error e, s)
  | .ok () => ((s.resumeRecords h).referenceAnswer h height blockHash, s.resumeRecords h)

/-- `is_protocol_v1_block_payload`, for the network of the node. -/
def MediaBlock.OfNetwork (networkId : String) (block : MediaBlock) : Prop :=
  (block.blockVersion = some 1 ∨ block.blockVersion = some 2) ∧ block.networkId = some networkId

instance (networkId : String) (block : MediaBlock) : Decidable (block.OfNetwork networkId) :=
  inferInstanceAs (Decidable (_ ∧ _))

/-- The media hash is the digest of the media bytes, which are not empty, and the content
hash. -/
def MediaBlock.Intact (h : Host) (block : MediaBlock) : Prop :=
  (∃ bytes ∈ block.mediaBytes, bytes.size ≠ 0 ∧ block.mediaHash = some (h.sha256Hex bytes)) ∧
    block.contentHash = block.mediaHash

instance (h : Host) (block : MediaBlock) : Decidable (block.Intact h) :=
  inferInstanceAs (Decidable (_ ∧ _))

/-- The checks behind the reference test. -/
def checkMedia (h : Host) (block : MediaBlock) (finalized : Bool) : Py MediaBlock := do
  require finalized (.value "Media block is not finalized and canonical.")
  require (block.Intact h)
    (.value "Finalized block media hash does not match immutable bytes.")
  return block

/-- `_finalized_dispute_block`. -/
def finalizedDisputeBlock (h : Host) (networkId submissionId : String) (s : Node) :
    Py MediaBlock × Node :=
  let s := s.resumeBlocks
  match s.blockIndex.value.lookup submissionId with
  | none => (.error (.value "Finalized media block not found for submission."), s)
  | some height =>
    match itemAt s.chain height with
    | .error e => (.error e, s)
    | .ok block =>
      if block.OfNetwork networkId then
        let reference := isFinalizedDisputeReference h height block.hash s
        (reference.1 >>= checkMedia h block, reference.2)
      else (.error (.value "Dispute requires a Public Testnet v1 media block."), s)

/-! ## Plain scans -/

/-- The last block with the submission identifier and media bytes. -/
def lastMediaBlock (chain : List MediaBlock) (submissionId : String) : Option MediaBlock :=
  chain.reverse.find? fun block => block.indexedAs = some submissionId

/-- The block with this hash stands at this height of the chain. -/
def OnChain (h : Host) (chain : List MediaBlock) (height : Int) (blockHash : String) : Prop :=
  ∃ n : Nat, height = n ∧ ∃ block, chain[n]? = some block ∧ h.lower block.hash = h.lower blockHash

/-- A finality record has this height and this hash. -/
def Recorded (h : Host) (records : List FinalityRecord) (height : Int) (blockHash : String) :
    Prop :=
  ∃ record ∈ records, (record.blockHeight : Int) = height ∧
    h.lower record.blockHash = h.lower blockHash

instance (h : Host) (records : List FinalityRecord) (height : Int) (blockHash : String) :
    Decidable (Recorded h records height blockHash) :=
  inferInstanceAs (Decidable (∃ record ∈ records, _))

/-- `_finalized_dispute_block` without an index. -/
def scannedDisputeBlock (h : Host) (networkId submissionId : String) (s : Node) :
    Py MediaBlock := do
  match lastMediaBlock s.chain submissionId with
  | none => .error (.value "Finalized media block not found for submission.")
  | some block =>
    require (block.OfNetwork networkId)
      (.value "Dispute requires a Public Testnet v1 media block.")
    s.requireFinalityAvailable
    checkMedia h block (decide (Recorded h s.finalizedBlocks block.index block.hash))

/-! ## Runs -/

/-- A chain of the run: its blocks are among `blocks`, stand at the places of their heights
and name the hash of the one before. -/
structure ValidChain (blocks : Set MediaBlock) (chain : List MediaBlock) : Prop where
  known : ∀ block ∈ chain, block ∈ blocks
  heights : ∀ i (block : MediaBlock), chain[i]? = some block → block.index = i
  linked : Linked MediaBlock.hash MediaBlock.previousHash chain

/-- The states of a node: it starts with the indices of what it loaded, or without any;
the chain is replaced by another one, the records by more of them, the finality storage fails
or recovers, and disputes are looked up. -/
inductive Reachable (h : Host) (networkId : String) (blocks : Set MediaBlock) : Node → Prop
  | loaded {chain records} (available : Bool) : ValidChain blocks chain →
      Ascending FinalityRecord.blockHeight records →
      Reachable h networkId blocks
        ⟨chain, records, available, scanChain chain, scanRecords h records⟩
  | bare {chain records} (available : Bool) : ValidChain blocks chain →
      Ascending FinalityRecord.blockHeight records →
      Reachable h networkId blocks ⟨chain, records, available, ⟨∅, 0, none⟩, ⟨∅, 0, none⟩⟩
  | chain {s chain} : Reachable h networkId blocks s → ValidChain blocks chain →
      Reachable h networkId blocks { s with chain }
  | records {s records} : Reachable h networkId blocks s →
      Ascending FinalityRecord.blockHeight records → s.finalizedBlocks ⊆ records →
      Reachable h networkId blocks { s with finalizedBlocks := records }
  | available {s} (available : Bool) : Reachable h networkId blocks s →
      Reachable h networkId blocks { s with finalityAvailable := available }
  | block {s} (submissionId : String) : Reachable h networkId blocks s →
      Reachable h networkId blocks (finalizedDisputeBlock h networkId submissionId s).2
  | reference {s} (height : Int) (blockHash : String) : Reachable h networkId blocks s →
      Reachable h networkId blocks (isFinalizedDisputeReference h height blockHash s).2

/-- What is kept is about a chain of the run and about records that are still there. -/
structure Coherent (h : Host) (blocks : Set MediaBlock) (s : Node) : Prop where
  chain : ValidChain blocks s.chain
  records : Ascending FinalityRecord.blockHeight s.finalizedBlocks
  blockIndex : ∃ old, ValidChain blocks old ∧ s.blockIndex = scanChain old
  finalityIndex : ∃ old, Ascending FinalityRecord.blockHeight old ∧ old ⊆ s.finalizedBlocks ∧
    s.finalityIndex = scanRecords h old

variable {h : Host} {networkId : String} {blocks : Set MediaBlock} {s : Node}

theorem validChain_nil : ValidChain blocks [] :=
  ⟨by simp, by simp, fun i x y hx => by simp at hx⟩

/-! ## The indices are those of the current lists -/

theorem resumeBlocks_eq (hdetermines : blocks.InjOn MediaBlock.hash) (hs : Coherent h blocks s) :
    s.resumeBlocks = { s with blockIndex := scanChain s.chain } := by
  obtain ⟨old, hold, heq⟩ := hs.blockIndex
  have hmarks : Marks MediaBlock.hash old s.chain :=
    take_eq_of_linked (fun x hx y hy => hdetermines (hs.chain.known x hx) (hold.known y hy))
      hs.chain.linked hold.linked
  unfold Node.resumeBlocks
  rw [heq, scanChain, resume_scan hmarks]
  rfl

theorem resumeRecords_eq (hs : Coherent h blocks s) :
    s.resumeRecords h = { s with finalityIndex := scanRecords h s.finalizedBlocks } := by
  obtain ⟨old, hold, hgain, heq⟩ := hs.finalityIndex
  have hmarks : Marks FinalityRecord.reference old s.finalizedBlocks :=
    take_eq_of_sorted (fun x y hxy => (Prod.mk.inj hxy).1) hs.records hold hgain
  unfold Node.resumeRecords
  rw [heq, scanRecords, resume_scan hmarks]
  rfl

theorem Coherent.blocks_resumed (hs : Coherent h blocks s) :
    Coherent h blocks { s with blockIndex := scanChain s.chain } :=
  ⟨hs.chain, hs.records, ⟨s.chain, hs.chain, rfl⟩, hs.finalityIndex⟩

theorem Coherent.records_resumed (hs : Coherent h blocks s) :
    Coherent h blocks { s with finalityIndex := scanRecords h s.finalizedBlocks } :=
  ⟨hs.chain, hs.records, hs.blockIndex, ⟨s.finalizedBlocks, hs.records, List.Subset.refl _, rfl⟩⟩

/-- The node after a reference test. -/
theorem reference_state (hs : Coherent h blocks s) (height : Int) (blockHash : String) :
    (isFinalizedDisputeReference h height blockHash s).2 = s ∨
    (isFinalizedDisputeReference h height blockHash s).2 =
      { s with finalityIndex := scanRecords h s.finalizedBlocks } := by
  unfold isFinalizedDisputeReference
  split
  · exact .inl rfl
  · exact .inr (resumeRecords_eq hs)

theorem Coherent.reference (hs : Coherent h blocks s) (height : Int) (blockHash : String) :
    Coherent h blocks (isFinalizedDisputeReference h height blockHash s).2 := by
  rcases reference_state hs height blockHash with heq | heq
  · rwa [heq]
  · rw [heq]
    exact hs.records_resumed

theorem Coherent.block (hdetermines : blocks.InjOn MediaBlock.hash) (hs : Coherent h blocks s)
    (submissionId : String) :
    Coherent h blocks (finalizedDisputeBlock h networkId submissionId s).2 := by
  have hresumed := hs.blocks_resumed
  unfold finalizedDisputeBlock
  rw [resumeBlocks_eq hdetermines hs]
  dsimp only
  split
  · exact hresumed
  · split
    · exact hresumed
    · split
      · exact hresumed.reference _ _
      · exact hresumed

theorem Reachable.coherent (hdetermines : blocks.InjOn MediaBlock.hash)
    (hs : Reachable h networkId blocks s) : Coherent h blocks s := by
  induction hs with
  | loaded available hchain hrecords =>
    exact ⟨hchain, hrecords, ⟨_, hchain, rfl⟩, ⟨_, hrecords, List.Subset.refl _, rfl⟩⟩
  | bare available hchain hrecords =>
    exact ⟨hchain, hrecords, ⟨[], validChain_nil, rfl⟩, ⟨[], List.Pairwise.nil, by simp, rfl⟩⟩
  | chain _ hchain ih => exact ⟨hchain, ih.records, ih.blockIndex, ih.finalityIndex⟩
  | records _ hrecords hgain ih =>
    obtain ⟨old, hold, hsub, heq⟩ := ih.finalityIndex
    exact ⟨ih.chain, hrecords, ih.blockIndex, ⟨old, hold, List.Subset.trans hsub hgain, heq⟩⟩
  | available available _ ih => exact ⟨ih.chain, ih.records, ih.blockIndex, ih.finalityIndex⟩
  | block submissionId _ ih => exact ih.block hdetermines submissionId
  | reference height blockHash _ ih => exact ih.reference height blockHash

/-! ## What the indices say -/

theorem lookup_scanChain (chain : List MediaBlock) (submissionId : String) :
    (scanChain chain).value.lookup submissionId =
      (lastMediaBlock chain submissionId).map MediaBlock.index := by
  unfold scanChain scan lastMediaBlock
  induction chain using List.reverseRecOn with
  | nil => rfl
  | append_singleton chain block ih =>
    simp only [List.foldl_append, List.foldl_cons, List.foldl_nil, List.reverse_append,
      List.reverse_singleton, List.singleton_append, List.find?_cons]
    by_cases hid : block.indexedAs = some submissionId
    · simp [indexBlock, hid]
    · simp only [hid, decide_false]
      rw [← ih]
      unfold indexBlock
      split
      · next id heq =>
        have hne : submissionId ≠ id := fun h => hid (h ▸ heq)
        exact Finmap.lookup_insert_of_ne _ hne
      · rfl

theorem mem_scanRecords {records : List FinalityRecord} {height : Int} {blockHash : String} :
    (height, h.lower blockHash) ∈ (scanRecords h records).value ↔
      Recorded h records height blockHash := by
  unfold scanRecords scan Recorded
  induction records using List.reverseRecOn with
  | nil => simp
  | append_singleton records record ih =>
    simp only [List.foldl_append, List.foldl_cons, List.foldl_nil, indexRecord,
      Finset.mem_insert, Prod.mk.injEq, List.mem_append, List.mem_singleton] at ih ⊢
    rw [ih]
    constructor
    · rintro (⟨hheight, hhash⟩ | ⟨r, hr, heq⟩)
      · exact ⟨record, .inr rfl, hheight.symm, hhash.symm⟩
      · exact ⟨r, .inl hr, heq⟩
    · rintro ⟨r, hr | rfl, hheight, hhash⟩
      · exact .inr ⟨r, hr, hheight, hhash⟩
      · exact .inl ⟨hheight.symm, hhash.symm⟩

theorem itemAt_natCast {α : Type} {xs : List α} {n : Nat} {x : α} (hx : xs[n]? = some x) :
    itemAt xs (n : Int) = .ok x := by
  have hnonneg : ¬(n : Int) < 0 := by omega
  unfold itemAt
  simp only [if_neg hnonneg, Int.toNat_natCast, hx]

/-- The answer at a height of the chain. -/
theorem referenceAnswer_eq {n : Nat} {block : MediaBlock} {blockHash : String}
    (hblock : s.chain[n]? = some block) :
    s.referenceAnswer h n blockHash = .ok (decide (h.lower block.hash = h.lower blockHash)
      && decide (((n : Int), h.lower blockHash) ∈ s.finalityIndex.value)) := by
  have hlt : n < s.chain.length := (List.getElem?_eq_some_iff.mp hblock).1
  unfold Node.referenceAnswer
  rw [if_pos (by exact_mod_cast hlt), itemAt_natCast hblock]
  rfl

/-- An answer is true of the reference of a block of the chain that is recorded. -/
theorem referenceAnswer_iff {records : List FinalityRecord} {height : Int} {blockHash : String}
    (hindex : s.finalityIndex = scanRecords h records) :
    s.referenceAnswer h height blockHash = .ok true ↔
      OnChain h s.chain height blockHash ∧ Recorded h records height blockHash := by
  constructor
  · intro htrue
    by_cases hneg : height < 0
    · -- a negative height is in no record, so that the last test of the answer fails
      exfalso
      unfold Node.referenceAnswer at htrue
      split at htrue
      · obtain ⟨block, -, hanswer⟩ := bind_eq_ok.mp htrue
        have hboth := pure_eq_ok.mp hanswer
        simp only [Bool.and_eq_true, decide_eq_true_eq] at hboth
        obtain ⟨-, hmem⟩ := hboth
        rw [hindex] at hmem
        obtain ⟨record, -, hheight, -⟩ := mem_scanRecords.mp hmem
        omega
      · cases htrue
    · obtain ⟨n, rfl⟩ := Int.eq_ofNat_of_zero_le (not_lt.mp hneg)
      by_cases hlt : n < s.chain.length
      · have hblock := List.getElem?_eq_getElem hlt
        rw [referenceAnswer_eq hblock] at htrue
        have hboth := Except.ok.inj htrue
        simp only [Bool.and_eq_true, decide_eq_true_eq] at hboth
        obtain ⟨hhash, hmem⟩ := hboth
        rw [hindex] at hmem
        exact ⟨⟨n, rfl, _, hblock, hhash⟩, mem_scanRecords.mp hmem⟩
      · unfold Node.referenceAnswer at htrue
        rw [if_neg (by exact_mod_cast hlt)] at htrue
        cases htrue
  · rintro ⟨⟨n, rfl, block, hblock, hhash⟩, hrecorded⟩
    rw [referenceAnswer_eq hblock, hindex]
    simp [hhash, mem_scanRecords.mpr hrecorded]

theorem lastMediaBlock_mem {chain : List MediaBlock} {submissionId : String} {block : MediaBlock}
    (hlast : lastMediaBlock chain submissionId = some block) : block ∈ chain :=
  List.mem_reverse.mp (List.mem_of_find?_eq_some hlast)

/-- The reference test of a block of the chain. -/
theorem reference_of_block (hs : Coherent h blocks s) {block : MediaBlock}
    (hblock : s.chain[block.index]? = some block) :
    (isFinalizedDisputeReference h block.index block.hash s).1 = (do
      s.requireFinalityAvailable
      return decide (Recorded h s.finalizedBlocks block.index block.hash)) := by
  unfold isFinalizedDisputeReference
  cases s.requireFinalityAvailable with
  | error e => rfl
  | ok u =>
    cases u
    have hanswer := @referenceAnswer_eq h
      { s with finalityIndex := scanRecords h s.finalizedBlocks } _ _ block.hash hblock
    simp only [resumeRecords_eq hs, hanswer, decide_true, Bool.true_and, mem_scanRecords]
    rfl

/-- The look-up that resumes its indices is the plain scan. -/
theorem finalizedDisputeBlock_eq (hdetermines : blocks.InjOn MediaBlock.hash)
    (hs : Coherent h blocks s) (submissionId : String) :
    (finalizedDisputeBlock h networkId submissionId s).1 =
      scannedDisputeBlock h networkId submissionId s := by
  unfold finalizedDisputeBlock scannedDisputeBlock
  rw [resumeBlocks_eq hdetermines hs]
  simp only [lookup_scanChain]
  cases hlast : lastMediaBlock s.chain submissionId with
  | none => rfl
  | some block =>
    obtain ⟨i, hi⟩ := List.mem_iff_getElem?.mp (lastMediaBlock_mem hlast)
    have hblock : s.chain[block.index]? = some block := by rwa [hs.chain.heights i block hi]
    simp only [Option.map_some, itemAt_natCast hblock]
    by_cases hnetwork : block.OfNetwork networkId
    · rw [if_pos hnetwork, require_pos hnetwork,
        reference_of_block hs.blocks_resumed hblock]
      simp only [bind_assoc, pure_bind]
      rfl
    · rw [if_neg hnetwork, require_neg hnetwork]
      rfl

/-- In every run both look-ups agree with a plain scan of the current chain and records: the
media block is the last one with the submission, and a reference is finalized if and only if
the block stands on the chain and a record names it. -/
theorem lookups_eq_scans (h : Host) (networkId : String) (blocks : Set MediaBlock)
    (hdetermines : blocks.InjOn MediaBlock.hash) (s : Node)
    (hs : Reachable h networkId blocks s) :
    (∀ submissionId, (finalizedDisputeBlock h networkId submissionId s).1 =
      scannedDisputeBlock h networkId submissionId s) ∧
    ∀ height blockHash, (isFinalizedDisputeReference h height blockHash s).1 = .ok true ↔
      s.finalityAvailable = true ∧ OnChain h s.chain height blockHash ∧
        Recorded h s.finalizedBlocks height blockHash := by
  have hcoherent := hs.coherent hdetermines
  refine ⟨finalizedDisputeBlock_eq hdetermines hcoherent, fun height blockHash => ?_⟩
  unfold isFinalizedDisputeReference Node.requireFinalityAvailable
  by_cases havailable : s.finalityAvailable = true
  · simp only [resumeRecords_eq hcoherent, havailable, true_and]
    exact referenceAnswer_iff rfl
  · simp [havailable]

/-! ## A run: a lower record arrives, then the chain grows -/

/-- The blocks of a small chain. -/
def sampleBlocks : List MediaBlock :=
  [⟨0, "b0", "", none, none, none, none, none, none⟩,
    ⟨1, "b1", "b0", some "meme", some ⟨#[7]⟩, some 1, some "zoid",
      some ((Host.sample none none).sha256Hex ⟨#[7]⟩),
      some ((Host.sample none none).sha256Hex ⟨#[7]⟩)⟩,
    ⟨2, "b2", "b1", none, none, some 1, some "zoid", none, none⟩]

/-- The blocks below a height. -/
def sampleChain (n : Nat) : List MediaBlock := sampleBlocks.take n

/-- The node after the run: it was loaded with one record at height one, looked a reference
up, got a record below it and another block. -/
def sampleNode : Node :=
  let loaded : Node := ⟨sampleChain 2, [⟨1, "b1"⟩], true, scanChain (sampleChain 2),
    scanRecords (Host.sample none none) [⟨1, "b1"⟩]⟩
  let looked := (isFinalizedDisputeReference (Host.sample none none) 1 "b1" loaded).2
  { { looked with finalizedBlocks := [⟨0, "b0"⟩, ⟨1, "b1"⟩] } with chain := sampleChain 3 }

theorem validChain_sample (n : Nat) : ValidChain { b | b ∈ sampleBlocks } (sampleChain n) where
  known _ hblock := List.mem_of_mem_take hblock
  heights i block hblock := by
    rw [sampleChain, List.getElem?_take] at hblock
    split at hblock
    · match i with
      | 0 | 1 | 2 => cases hblock; rfl
      | i + 3 => cases hblock
    · cases hblock
  linked i x y hx hy := by
    rw [sampleChain, List.getElem?_take] at hx hy
    split at hx
    · split at hy
      · match i with
        | 0 | 1 => cases hx; cases hy; rfl
        | i + 2 => cases hy
      · cases hy
    · cases hx

theorem reachable_sampleNode :
    Reachable (Host.sample none none) "zoid" { b | b ∈ sampleBlocks } sampleNode :=
  (((Reachable.loaded true (validChain_sample 2)
    (show Ascending FinalityRecord.blockHeight [⟨1, "b1"⟩] from List.pairwise_singleton _ _)
    ).reference 1 "b1").records
    (List.pairwise_pair.mpr (by decide : (0 : Nat) < 1)) (by simp [isFinalizedDisputeReference,
      Node.requireFinalityAvailable, Node.resumeRecords])).chain (validChain_sample 3)

theorem lookups_eq_scans_sample :
    (finalizedDisputeBlock (Host.sample none none) "zoid" "meme" sampleNode).1 =
      .ok (sampleBlocks[1]) ∧
    (isFinalizedDisputeReference (Host.sample none none) 0 "B0" sampleNode).1 = .ok true := by
  have hinj : Set.InjOn MediaBlock.hash { b | b ∈ sampleBlocks } := by
    intro x hx y hy
    simp only [sampleBlocks, Set.mem_ofPred_eq, List.mem_cons, List.not_mem_nil, or_false] at hx hy
    rcases hx with rfl | rfl | rfl <;> rcases hy with rfl | rfl | rfl <;> simp
  obtain ⟨hblock, href⟩ :=
    lookups_eq_scans (Host.sample none none) "zoid" _ hinj sampleNode reachable_sampleNode
  refine ⟨(hblock "meme").trans (eq_ok_of_toOption (by decide +kernel)), (href 0 "B0").mpr
    ⟨rfl, ⟨0, rfl, _, rfl, ?_⟩, ⟨0, "b0"⟩, by decide, rfl, ?_⟩⟩ <;>
    decide +kernel

end ZoidbergChain.DisputeCache
