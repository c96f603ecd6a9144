import ZoidbergChain.ChainReplay
import ZoidbergChain.PeerSync

/-!
# Heights of an accepted chain

The activation rule and the genesis exemption read the height that a block declares.
`validate_candidate` checks that a block declares the next height; `validate_chain`
and `_validate_candidate_chain` link the blocks by their hashes only.

- `HeightLaw`: heights are positions, and what follows for the later blocks.
- `heightLaw_iff_consecutive`: an accepted chain obeys it exactly when every block declares
  the height behind its predecessor's.
- `heightLaw_not_accepted`: an accepted chain that does not obey it.
-/

namespace ZoidbergChain

open Python

variable {c : Collaborators}

/-! ## Accepted chains by position -/

/-- The blocks of an accepted chain extend the blocks in front of them. -/
theorem AcceptedChain.extends {chain : List Dict} (hchain : AcceptedChain c chain) (i : Nat)
    (hi : i + 1 < chain.length) : Extends c (chain.take (i + 1)) chain[i] chain[i + 1] := by
  induction hchain with
  | genesis _ => simp at hi
  | @extend front previous block _ hextends ih =>
    by_cases hlast : i + 1 < (front ++ [previous]).length
    · have htake : (front ++ [previous] ++ [block]).take (i + 1) =
          (front ++ [previous]).take (i + 1) := List.take_append_of_le_length (by omega)
      rw [htake, List.getElem_append_left hlast, List.getElem_append_left (by omega)]
      exact ih hlast
    · -- the last block: its prefix is the whole chain in front of it
      obtain rfl : i = front.length := by
        simp only [List.length_append, List.length_singleton] at hi hlast
        omega
      have htake : (front ++ [previous] ++ [block]).take (front.length + 1) =
          front ++ [previous] := List.take_left' (by simp)
      rw [htake]
      simpa using hextends

/-- The first block of an accepted chain is an accepted genesis. -/
theorem AcceptedChain.head {chain : List Dict} (hchain : AcceptedChain c chain)
    (h0 : 0 < chain.length) : c.validateGenesis chain[0] = .ok () := by
  induction hchain with
  | genesis hg => exact hg
  | @extend front previous block _ _ ih =>
    rw [List.getElem_append_left (by simp)]
    exact ih (by simp)

/-! ## What a block is checked for -/

/-- The certificate check of a block that is not exempt from it. -/
def CertificateChecked (c : Collaborators) (block : Dict) (prior : List Dict) : Prop :=
  Value.pyEq (block.get "index") (.int 0) = false ∧
    if Value.pyEq (block.get "block_version") (.int admissionBlockVersion) then
      validateAdmissionBlock c block = .ok ()
    else validateOriginalityBlock c block prior = .ok ()

/-- The checks of `validate_block`, one by one. -/
theorem validateBlock_eq_ok {block : Dict} {prior : List Dict} :
    validateBlock c block prior = .ok () ↔
      checkBlockVersion block = .ok () ∧ checkActivation c block = .ok () ∧
      validateProtocolV1Payload c block = .ok () ∧
      validateCertificateMetadata c block prior = .ok () ∧
      validateNativeTransactions c block prior = .ok () := by
  simp only [validateBlock, bind_eq_ok]
  constructor
  · rintro ⟨⟨⟩, hversion, ⟨⟩, hactivation, ⟨⟩, hpayload, ⟨⟩, hcertificate, hnative⟩
    exact ⟨hversion, hactivation, hpayload, hcertificate, hnative⟩
  · rintro ⟨hversion, hactivation, hpayload, hcertificate, hnative⟩
    exact ⟨(), hversion, (), hactivation, (), hpayload, (), hcertificate, hnative⟩

/-- A block that does not declare height 0 passes its certificate check. -/
theorem certificateChecked_of_valid {block : Dict} {prior : List Dict}
    (hvalid : validateBlock c block prior = .ok ())
    (hindex : Value.pyEq (block.get "index") (.int 0) = false) :
    CertificateChecked c block prior := by
  obtain ⟨-, -, -, hcertificate, -⟩ := validateBlock_eq_ok.mp hvalid
  rw [validateCertificateMetadata, if_neg (by simp [hindex])] at hcertificate
  refine ⟨hindex, ?_⟩
  split at hcertificate <;> simp_all

/-- A block that declares a height from the activation on is an admission block. -/
theorem version_of_checkActivation {block : Dict} {a : ActivationHeight} {n : Nat}
    (hok : checkActivation c block = .ok ()) (ha : c.admissionActivationHeight = some a)
    (hindex : Value.pyEq (block.get "index") (.int n) = true) (hn : a.1 ≤ n) :
    Value.pyEq (block.get "block_version") (.int admissionBlockVersion) = true := by
  simp only [checkActivation, ha] at hok
  split at hok
  · next index heq =>
    simp only [bind_eq_ok, require_eq_ok] at hok
    obtain ⟨-, -, hversion⟩ := hok
    have hheight : index = (n : Int) := by
      have hnum := Value.pyEq_int.mp hindex
      rw [heq] at hnum
      exact_mod_cast Option.some.inj hnum
    exact hversion (hheight ▸ hn)
  · cases hok

/-! ## Heights and positions -/

/-- The block declares the height behind the one its predecessor declares, which is the
check of `validate_candidate`. -/
def DeclaresNext (previous block : Dict) : Prop :=
  ∃ q, (previous.get "index").number? = some q ∧ (block.get "index").number? = some (q + 1)

/-- Heights are positions: from the activation height on every block is a checked
admission block, and only the first block is exempt from the certificate check. -/
structure HeightLaw (c : Collaborators) (chain : List Dict) : Prop where
  position : ∀ i (_ : i < chain.length), Value.pyEq (chain[i].get "index") (.int i) = true
  activated : ∀ a, c.admissionActivationHeight = some a → ∀ i (_ : i < chain.length), a.1 ≤ i →
    Value.pyEq (chain[i].get "block_version") (.int admissionBlockVersion) = true ∧
    validateAdmissionBlock c chain[i] = .ok ()
  certified : ∀ i (_ : i < chain.length), 0 < i → CertificateChecked c chain[i] (chain.take i)

/-- Counting from the genesis, consecutive heights are positions. -/
theorem AcceptedChain.position {chain : List Dict} (hchain : AcceptedChain c chain)
    (hnext : chain.IsChain DeclaresNext) (i : Nat) (hi : i < chain.length) :
    Value.pyEq (chain[i].get "index") (.int i) = true := by
  induction i with
  | zero =>
    have hgenesis := c.validateGenesis_record _ (hchain.head hi)
    rw [hgenesis.index]
    rfl
  | succ i ih =>
    obtain ⟨q, hprevious, hblock⟩ := List.isChain_iff_getElem.mp hnext i hi
    have hq := Value.pyEq_int.mp (ih (by omega))
    obtain rfl := Option.some.inj (hprevious.symm.trans hq)
    rw [Value.pyEq_int, hblock]
    push_cast
    rfl

/-- An accepted chain with consecutive heights obeys the height law. -/
theorem AcceptedChain.heightLaw {chain : List Dict} (hchain : AcceptedChain c chain)
    (hnext : chain.IsChain DeclaresNext) : HeightLaw c chain := by
  have hposition := hchain.position hnext
  have hcertified : ∀ i (_ : i < chain.length), 0 < i →
      CertificateChecked c chain[i] (chain.take i) := by
    intro i hi hpos
    obtain ⟨j, rfl⟩ : ∃ j, i = j + 1 := ⟨i - 1, by omega⟩
    refine certificateChecked_of_valid (hchain.extends j hi).valid ?_
    have hindex := Value.pyEq_int.mp (hposition _ hi)
    rw [Bool.eq_false_iff, ne_eq, Value.pyEq_int, hindex]
    intro hzero
    have hzero' : ((j + 1 : Nat) : Int) = 0 := by exact_mod_cast Option.some.inj hzero
    omega
  refine ⟨hposition, fun a ha i hi hle => ?_, hcertified⟩
  -- the activation height is at least 1, so the genesis is not concerned
  have hpos : 0 < i := by have := a.2; omega
  obtain ⟨j, rfl⟩ : ∃ j, i = j + 1 := ⟨i - 1, by omega⟩
  obtain ⟨-, hactivation, -⟩ := validateBlock_eq_ok.mp (hchain.extends j hi).valid
  have hversion := version_of_checkActivation hactivation ha (hposition _ hi) hle
  have hchecked := (hcertified _ hi hpos).2
  rw [if_pos hversion] at hchecked
  exact ⟨hversion, hchecked⟩

/-- Positions are consecutive. -/
theorem HeightLaw.consecutive {chain : List Dict} (hlaw : HeightLaw c chain) :
    chain.IsChain DeclaresNext := by
  rw [List.isChain_iff_getElem]
  intro i hi
  have hprevious := Value.pyEq_int.mp (hlaw.position i (by omega))
  have hblock := Value.pyEq_int.mp (hlaw.position (i + 1) hi)
  exact ⟨_, hprevious, by rw [hblock]; push_cast; rfl⟩

/-- Accepted chains, on their own and delivered by a peer, obey the height law exactly when
every block declares the height behind its predecessor's. -/
theorem heightLaw_iff_consecutive (c : PeerCollaborators) :
    (∀ chain, validateChain c.toCollaborators chain = .ok true →
      (HeightLaw c.toCollaborators chain ↔ chain.IsChain DeclaresNext)) ∧
    (∀ payload latestHash genesisHash height blocks,
      validateCandidateChain c payload latestHash genesisHash height = .ok blocks →
      (HeightLaw c.toCollaborators (blocks.map Block.toDict) ↔
        (blocks.map Block.toDict).IsChain DeclaresNext)) := by
  have hchain : ∀ chain, validateChain c.toCollaborators chain = .ok true →
      (HeightLaw c.toCollaborators chain ↔ chain.IsChain DeclaresNext) := fun chain hok =>
    ⟨HeightLaw.consecutive, (validateChain_eq_ok hok).heightLaw⟩
  exact ⟨hchain, fun payload latestHash genesisHash height blocks hok =>
    hchain _ (validateCandidateChain_eq_ok hok).accepted⟩

/-! ## A chain that declares height 0 twice -/

namespace SampleNode

theorem peerLimit_valid : (1 : Int) ≤ 1 := le_refl 1

/-- The peer of the sample chains. -/
def peerNode : PeerCollaborators := peer (.sample none none) (some ⟨1, peerLimit_valid⟩)

/-- A block without a version behind the genesis that declares height 0 again and pays
its miner out of nothing. -/
def heightlessBlock : Dict :=
  [("index", .int 0), ("previous_hash", .str "g"), ("timestamp", .int 1785542500),
    ("transactions", .list [.dict [("sender", .str "GENESIS"),
      ("recipient", .str "0x1111111111111111111111111111111111111111"),
      ("amount", .int 1000000)]]),
    ("miner", .str "0x1111111111111111111111111111111111111111"), ("meme", .str "m"),
    ("hash", .str "h1")]

/-- The two blocks as a peer delivers them. -/
def heightlessPayload : List Value := [.dict genesis, .dict heightlessBlock]

/-- The candidate chain of the two blocks. -/
def heightlessCandidate : Py (List Block) :=
  validateCandidateChain peerNode heightlessPayload (.str "h1") (.str "g") (.int 0)

theorem heights_heightlessCandidate :
    heightlessCandidate.map (·.map fun block => block.toDict.get "index") =
      .ok [.int 0, .int 0] := by
  decide +kernel

theorem heightlessCandidate_returned : ∃ blocks, heightlessCandidate = .ok blocks ∧
    blocks.map (fun block => block.toDict.get "index") = [.int 0, .int 0] := by
  have hheights := heights_heightlessCandidate
  cases hcandidate : heightlessCandidate with
  | error e => rw [hcandidate] at hheights; cases hheights
  | ok blocks =>
    rw [hcandidate] at hheights
    exact ⟨blocks, rfl, Except.ok.inj hheights⟩

end SampleNode

/-- Acceptance does not give the height law: a block without a version may declare height 0
again, below the activation height and exempt from the certificate check. -/
theorem heightLaw_not_accepted :
    ¬∀ (c : PeerCollaborators) (payload : List Value) (latestHash genesisHash height : Value)
      (blocks : List Block),
      validateCandidateChain c payload latestHash genesisHash height = .ok blocks →
      HeightLaw c.toCollaborators (blocks.map Block.toDict) := by
  intro hall
  obtain ⟨blocks, hreturned, hheights⟩ := SampleNode.heightlessCandidate_returned
  have hlaw := hall _ _ _ _ _ _ hreturned
  have hlength : 1 < (blocks.map Block.toDict).length := by
    have := congrArg List.length hheights
    simp only [List.length_map, List.length_cons, List.length_nil] at this ⊢
    omega
  have hone := hlaw.position 1 hlength
  have hzero : ((blocks.map Block.toDict)[1]).get "index" = .int 0 := by
    have : (blocks.map fun block => block.toDict.get "index")[1]? = some (.int 0) := by
      rw [hheights]
      rfl
    rw [List.getElem?_map] at this
    obtain ⟨block, hblock, hindex⟩ := Option.map_eq_some_iff.mp this
    rw [List.getElem_map, (List.getElem_eq_iff _).mpr hblock]
    exact hindex
  rw [hzero] at hone
  cases hone

theorem heightLaw_iff_consecutive_samples :
    (HeightLaw SampleNode.node SampleNode.doubleReward ↔
      SampleNode.doubleReward.IsChain DeclaresNext) ∧
    ∃ blocks, SampleNode.heightlessCandidate = .ok blocks ∧
      (HeightLaw SampleNode.node (blocks.map Block.toDict) ↔
        (blocks.map Block.toDict).IsChain DeclaresNext) := by
  have hlaws := heightLaw_iff_consecutive SampleNode.peerNode
  obtain ⟨blocks, hreturned, -⟩ := SampleNode.heightlessCandidate_returned
  exact ⟨hlaws.1 _ SampleNode.validateChain_doubleReward, blocks, hreturned,
    hlaws.2 _ _ _ _ _ hreturned⟩

end ZoidbergChain
