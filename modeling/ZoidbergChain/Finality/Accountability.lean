import ZoidbergChain.Finality.Votes
import ZoidbergChain.Consensus.Quorum

/-!
# Accountable finality

- `AcceptedRecord.attesting`: a quorum of the validator set attests an accepted record.
- `processAttestation_finalization`: an emitted finalization is accepted evidence, for a
  height without a record.
- `accountableFinality`: two accepted records at one height share more than a third of the
  validators, and a run of calls finalizes a height at most once.
-/

namespace ZoidbergChain

open Python

namespace Finality

variable {h : Host}

/-! ## Accepted records -/

/-- The validator has a valid attestation for the block of the record in the record. -/
def Attests (h : Host) (validators : List String) (network : Value) (height : Int) (record : Dict)
    (v : String) : Prop :=
  ∃ attestations a c, record.get "attestations" = .list attestations ∧ a ∈ attestations ∧
    validateAttestation h a (.list (validators.map .str)) network = .ok c ∧
    c.validatorAddress = v ∧ c.blockHeight = height ∧
    c.blockHash = lowerText h (record.get "block_hash")

/-- A record that is accepted for the network, with its validator set and its height. -/
structure AcceptedRecord (h : Host) (validators : List String) (network : Value) (height : Int)
    (record : Dict) : Prop where
  accepted : validateFinalizationEvidence h (.dict record) network = .ok (.dict record)
  validators : normalizeValidatorSet h (record.get "validator_set") = .ok validators
  height : Finality.height h (record.get "block_height") = .ok height

theorem countBelow_int {n q : Nat} {v : Value} (hv : v.pyEq (.int q) = true) :
    countBelow n v = .ok (decide (n < q)) := by
  have hnumber := Value.pyEq_int.mp hv
  simp only [countBelow, hnumber, Int.cast_natCast, Nat.cast_lt]

/-- A quorum of the validators attests an accepted record. -/
theorem AcceptedRecord.attesting {validators : List String} {network : Value} {n : Int}
    {record : Dict} (hr : AcceptedRecord h validators network n record) :
    validators ≠ [] ∧ ∃ S : Finset String, S ⊆ validators.toFinset ∧
      requiredQuorum validators.length ≤ S.card ∧
      ∀ v ∈ S, Attests h validators network n record v := by
  obtain ⟨r, hclosed, hr'⟩ := bind_eq_ok.mp hr.accepted
  obtain rfl : record = r := by
    rw [closedDict] at hclosed
    split at hclosed
    · exact Except.ok.inj hclosed
    · cases hclosed
  obtain ⟨vs, hvs, hr'⟩ := bind_eq_ok.mp hr'
  obtain rfl := Except.ok.inj (hvs.symm.trans hr.validators)
  obtain ⟨m, hm, hr'⟩ := bind_eq_ok.mp hr'
  obtain rfl := Except.ok.inj (hm.symm.trans hr.height)
  obtain ⟨⟨⟩, hquorum, hr'⟩ := bind_eq_ok.mp hr'
  obtain ⟨id, -, hr'⟩ := bind_eq_ok.mp hr'
  obtain ⟨⟨⟩, -, hr'⟩ := bind_eq_ok.mp hr'
  obtain ⟨attestations, hattestations, hr'⟩ := bind_eq_ok.mp hr'
  obtain ⟨⟨votes, equivocations⟩, hvotes, hr'⟩ := bind_eq_ok.mp hr'
  obtain ⟨short, hshort, hr'⟩ := bind_eq_ok.mp hr'
  obtain ⟨⟨⟩, hproves, hr'⟩ := bind_eq_ok.mp hr'
  rw [countBelow_int (require_eq_ok.mp hquorum).2] at hshort
  cases hshort
  have henough : requiredQuorum vs.length ≤ votes.length := by
    simpa using (require_eq_ok.mp hproves).2
  have hlist : record.get "attestations" = .list attestations := by
    split at hattestations
    · next heq => rw [heq, Except.ok.inj hattestations]
    · cases hattestations
  obtain ⟨hvalid, hblock⟩ := votesForBlock_eq_ok hvotes
  have hset := normalizeValidatorSet_eq_ok hvs
  refine ⟨(require_eq_ok.mp hquorum).1, (votes.map Attestation.validatorAddress).toFinset,
    fun v hv => ?_, ?_, fun v hv => ?_⟩
  · obtain ⟨c, hc, rfl⟩ := List.mem_map.mp (List.mem_toFinset.mp hv)
    obtain ⟨a, -, ha⟩ := hvalid c hc
    obtain ⟨us, hus, hchecked⟩ := validateAttestation_eq_ok ha
    obtain rfl := Except.ok.inj (hus.symm.trans hset.normalize)
    exact List.mem_toFinset.mpr hchecked.member
  · rw [List.toFinset_card_of_nodup hblock.nodup, List.length_map]
    exact henough
  · obtain ⟨c, hc, rfl⟩ := List.mem_map.mp (List.mem_toFinset.mp hv)
    obtain ⟨a, ha, hchecked⟩ := hvalid c hc
    obtain ⟨hheight, hhash⟩ := hblock.block c hc
    exact ⟨attestations, a, c, hlist, ha, hchecked, rfl, hheight, hhash⟩

/-! ## Emitted finalizations -/

/-- A record of the height is in the list. -/
def HasHeight (finalizedBlocks : List Value) (n : Int) : Prop :=
  ∃ record : Dict, .dict record ∈ finalizedBlocks ∧
    (record.get "block_height").pyEq (.int n) = true

theorem not_hasHeight_of_match {finalizedBlocks : List Value} {n : Int} {blockHash : String}
    (hnone : finalizedMatch finalizedBlocks n blockHash = none) :
    ¬HasHeight finalizedBlocks n := by
  induction finalizedBlocks with
  | nil =>
    rintro ⟨record, hmem, -⟩
    cases hmem
  | cons v finalizedBlocks ih =>
    rintro ⟨record, hmem, hheight⟩
    have htail : finalizedMatch finalizedBlocks n blockHash = none ∧ v ≠ .dict record := by
      cases v with
      | dict d =>
        rw [finalizedMatch] at hnone
        split at hnone
        · cases hnone
        · next hne =>
          refine ⟨hnone, fun heq => hne ?_⟩
          rw [Value.dict.inj heq]
          exact hheight
      | _ => exact ⟨hnone, nofun⟩
    obtain heq | hmem := List.mem_cons.mp hmem
    · exact htail.2 heq.symm
    · exact ih htail.1 ⟨record, hmem, hheight⟩

/-- The finalization record of a quorum of votes is accepted evidence. -/
theorem validate_finalizationRecord {vs network : Value} {n : Int} {blockHash id : String}
    {validators : List String} {votes : List Attestation} (hn : 0 ≤ n)
    (hhash : lowerText h (.str blockHash) = blockHash)
    (hvs : normalizeValidatorSet h vs = .ok validators) (hne : validators ≠ [])
    (hid : normalizeNetworkId h network = .ok id) (hvotes : BlockVotes n blockHash votes)
    (hvalid : ∀ c ∈ votes, ∃ a, validateAttestation h a vs network = .ok c)
    (hquorum : requiredQuorum validators.length ≤ votes.length) :
    validateFinalizationEvidence h (.dict (finalizationRecord n blockHash id validators votes))
      network = .ok (.dict (finalizationRecord n blockHash id validators votes)) := by
  have hset := normalizeValidatorSet_eq_ok hvs
  generalize hrecord : finalizationRecord n blockHash id validators votes = record
  have hclosed : closedDict (.dict record) evidenceFields
      "Finality evidence has an invalid canonical shape." = .ok record := by
    rw [← hrecord]
    rfl
  have hvalidators : normalizeValidatorSet h (record.get "validator_set") = .ok validators := by
    rw [← hrecord]
    exact hset.normalize
  have hheight : height h (record.get "block_height") = .ok n := by
    rw [← hrecord]
    exact height_int hn
  have hblock : lowerText h (record.get "block_hash") = blockHash := by
    rw [← hrecord]
    exact hhash
  have hrequired : validators ≠ [] ∧
      (record.get "required_quorum").pyEq (.int (requiredQuorum validators.length)) = true := by
    rw [← hrecord]
    exact ⟨hne, Value.pyEq_int.mpr rfl⟩
  have hdomain : (record.get "network_id").pyEq (.str id) = true ∧
      (record.get "domain").pyEq (.str attestationDomain) = true ∧
      (record.get "attestation_version").pyEq (.int attestationVersion) = true := by
    rw [← hrecord]
    exact ⟨Value.pyEq_str.mpr rfl, Value.pyEq_str.mpr rfl, Value.pyEq_int.mpr rfl⟩
  have hattestations : record.get "attestations" = .list (votes.map fun a => .dict a.toDict) := by
    rw [← hrecord]
    rfl
  have hagain : ∀ c ∈ votes, validateAttestation h (.dict c.toDict)
      (.list (validators.map .str)) network = .ok c := by
    intro c hc
    obtain ⟨a, ha⟩ := hvalid c hc
    obtain ⟨us, hus, hchecked⟩ := validateAttestation_eq_ok ha
    obtain rfl := Except.ok.inj (hus.symm.trans hvs)
    exact hchecked.validate hset.normalize
  have hshort : countBelow votes.length (record.get "required_quorum") = .ok false := by
    rw [countBelow_int hrequired.2, decide_eq_false (not_lt.mpr hquorum)]
  have hsame : Value.pyEqList (votes.map fun a => .dict a.toDict)
      (votes.map fun a => .dict a.toDict) = true := by
    clear hquorum hvotes hvalid hrecord hattestations hagain hshort
    induction votes with
    | nil => rfl
    | cons c votes ih =>
      rw [List.map_cons, Value.pyEqList, ih, Bool.and_true]
      simp [Attestation.toDict, Value.pyEq, Value.pyEqDict, Dict.get?, Value.number?]
  simp only [validateFinalizationEvidence, hclosed, hvalidators, hheight, hblock,
    require_pos hrequired, hid, require_pos hdomain, hattestations,
    votesForBlock_votes hvotes hagain, hshort, ok_bind, and_self, require_pos trivial, hsame]

theorem canonicalTarget_eq_ok {block : Value} {target : Int × String}
    (ht : canonicalTarget h block = .ok target) :
    0 ≤ target.1 ∧ lowerText h (.str target.2) = target.2 := by
  cases block with
  | dict d =>
    obtain ⟨n, hn, ht⟩ := bind_eq_ok.mp ht
    cases ht
    exact ⟨height_nonneg hn, lowerText_lowerText _⟩
  | _ => cases ht

/-- A finalization that a new attestation emits is accepted evidence, and no record of its
height is in the list. -/
theorem processAttestation_finalization {attestation vs network block : Value}
    {existing finalized : List Value} {p : Processed} {record : Dict}
    (hp : processAttestation h attestation vs network block existing finalized = .ok p)
    (hnew : p.status ≠ .duplicate) (hrecord : p.finalization = some record) :
    ∃ n, record.get "block_height" = .int n ∧ ¬HasHeight finalized n ∧
      validateFinalizationEvidence h (.dict record) network = .ok (.dict record) := by
  obtain ⟨checked, -, hp⟩ := bind_eq_ok.mp hp
  obtain ⟨target, htarget, hp⟩ := bind_eq_ok.mp hp
  obtain ⟨⟨⟩, -, hp⟩ := bind_eq_ok.mp hp
  obtain ⟨⟨⟩, -, hp⟩ := bind_eq_ok.mp hp
  obtain ⟨duplicate, -, hp⟩ := bind_eq_ok.mp hp
  obtain ⟨hn, hhash⟩ := canonicalTarget_eq_ok htarget
  split at hp
  · cases hp
    exact absurd rfl hnew
  · obtain ⟨⟨votes, equivocations⟩, hvotes, hp⟩ := bind_eq_ok.mp hp
    obtain ⟨validators, hvs, hp⟩ := bind_eq_ok.mp hp
    obtain ⟨id, hid, hp⟩ := bind_eq_ok.mp hp
    cases hp
    dsimp only at hrecord
    split at hrecord
    · next hemit =>
      obtain ⟨hnone, hne, hquorum⟩ := hemit
      obtain rfl := Option.some.inj hrecord
      obtain ⟨hvalid, hblock⟩ := votesForBlock_eq_ok hvotes
      refine ⟨target.1, rfl, not_hasHeight_of_match hnone, ?_⟩
      refine validate_finalizationRecord hn hhash hvs hne hid hblock (fun c hc => ?_) hquorum
      obtain ⟨a, -, ha⟩ := hvalid c hc
      exact ⟨a, ha⟩
    · cases hrecord

/-! ## Runs of calls -/

/-- The arguments of a call of `process_attestation`. -/
structure Call where
  attestation : Value
  validatorSet : Value
  network : Value
  canonicalBlock : Value

/-- The lists that are passed from call to call. -/
structure Lists where
  attestations : List Value
  finalized : List Value

/-- A finalization record, and the network of the call that emitted it. -/
structure Emission where
  network : Value
  record : Dict

/-- One call. A new attestation is appended, and so is the finalization that it emits; a
call that raises and a duplicate leave the lists as they are. -/
def Lists.step (h : Host) (l : Lists) (c : Call) : Lists × Option Emission :=
  match processAttestation h c.attestation c.validatorSet c.network c.canonicalBlock
      l.attestations l.finalized with
  | .error _ => (l, none)
  | .ok p =>
    if p.status = .duplicate then (l, none)
    else ({ attestations := l.attestations ++ [.dict p.attestation.toDict]
            finalized := l.finalized ++ (p.finalization.map Value.dict).toList },
      p.finalization.map fun record => { network := c.network, record })

/-- The finalizations that a run of calls emits. -/
def Lists.run (h : Host) : Lists → List Call → List Emission
  | _, [] => []
  | l, c :: calls => (l.step h c).2.toList ++ (l.step h c).1.run h calls

/-- A call emits at most one finalization: evidence for a height without a record, which
has one afterwards. -/
theorem Lists.step_cases (h : Host) (l : Lists) (c : Call) :
    (l.step h c).2 = none ∧ (l.step h c).1.finalized = l.finalized ∨
    ∃ e n, (l.step h c).2 = some e ∧ (l.step h c).1.finalized = l.finalized ++ [.dict e.record] ∧
      e.record.get "block_height" = .int n ∧ ¬HasHeight l.finalized n ∧
      validateFinalizationEvidence h (.dict e.record) e.network = .ok (.dict e.record) := by
  unfold Lists.step
  split
  · exact Or.inl ⟨rfl, rfl⟩
  · next p hp =>
    split
    · exact Or.inl ⟨rfl, rfl⟩
    · next hnew =>
      cases hfinalization : p.finalization with
      | none => exact Or.inl ⟨rfl, List.append_nil _⟩
      | some record =>
        obtain ⟨n, hheight, hfresh, hvalid⟩ := processAttestation_finalization hp hnew hfinalization
        exact Or.inr ⟨⟨c.network, record⟩, n, rfl, rfl, hheight, hfresh, hvalid⟩

theorem Lists.run_spec (l : Lists) (calls : List Call) :
    ((l.run h calls).map fun e => e.record.get "block_height").Nodup ∧
    ∀ e ∈ l.run h calls,
      (∃ n, e.record.get "block_height" = .int n ∧ ¬HasHeight l.finalized n) ∧
      validateFinalizationEvidence h (.dict e.record) e.network = .ok (.dict e.record) := by
  induction calls generalizing l with
  | nil => exact ⟨List.nodup_nil, nofun⟩
  | cons c calls ih =>
    obtain ⟨hnodup, hrest⟩ := ih (l.step h c).1
    rw [Lists.run]
    obtain ⟨hnone, hsame⟩ | ⟨e, n, hsome, happend, hheight, hfresh, hvalid⟩ := l.step_cases h c
    · rw [hnone]
      rw [hsame] at hrest
      exact ⟨hnodup, hrest⟩
    · rw [hsome]
      rw [happend] at hrest
      -- the record that was just appended keeps its height from being emitted again
      have hlater : ∀ e' ∈ (l.step h c).1.run h calls, ∃ m,
          e'.record.get "block_height" = .int m ∧ ¬HasHeight l.finalized m ∧ m ≠ n := by
        intro e' he'
        obtain ⟨⟨m, hm, hfresh'⟩, -⟩ := hrest e' he'
        refine ⟨m, hm, fun ⟨record, hmem, hrecord⟩ => hfresh' ?_, ?_⟩
        · exact ⟨record, List.mem_append_left _ hmem, hrecord⟩
        · rintro rfl
          refine hfresh' ⟨e.record, List.mem_append_right _ (List.mem_singleton_self _), ?_⟩
          rw [hheight]
          exact Value.pyEq_int.mpr rfl
      refine ⟨List.nodup_cons.mpr ⟨fun hmem => ?_, hnodup⟩, fun e' he' => ?_⟩
      · obtain ⟨e', he', heq⟩ := List.mem_map.mp hmem
        obtain ⟨m, hm, -, hne⟩ := hlater e' he'
        have heq : e'.record.get "block_height" = e.record.get "block_height" := heq
        rw [hm, hheight] at heq
        exact hne (Value.int.inj heq)
      · obtain rfl | he' := List.mem_cons.mp he'
        · exact ⟨⟨n, hheight, hfresh⟩, hvalid⟩
        · obtain ⟨m, hm, hfresh', -⟩ := hlater e' he'
          exact ⟨⟨m, hm, hfresh'⟩, (hrest e' he').2⟩

/-! ## Accountability -/

/-- Two quorums of `n` validators share more than a third of the others. -/
theorem third_lt_overlap {n a : Nat} (hn : 0 < n)
    (ha : requiredQuorum n + requiredQuorum n ≤ n + a) : (n - 1) / 3 < a := by
  unfold requiredQuorum at ha
  omega

/-- Two records that are accepted for one network, with one validator set and at one height,
share valid attestations of more than a third of the other validators. A run of calls emits
at most one finalization for a height, and each one is accepted evidence. -/
theorem accountableFinality (h : Host) :
    (∀ validators network n record₁ record₂,
      AcceptedRecord h validators network n record₁ →
      AcceptedRecord h validators network n record₂ →
      ∃ S : Finset String, (validators.length - 1) / 3 < S.card ∧ ∀ v ∈ S, v ∈ validators ∧
        Attests h validators network n record₁ v ∧ Attests h validators network n record₂ v) ∧
    ∀ (l : Lists) (calls : List Call),
      ((l.run h calls).map fun e => e.record.get "block_height").Nodup ∧
      ∀ e ∈ l.run h calls,
        validateFinalizationEvidence h (.dict e.record) e.network = .ok (.dict e.record) := by
  refine ⟨fun validators network n record₁ record₂ h₁ h₂ => ?_, fun l calls => ?_⟩
  · obtain ⟨hne, S₁, hsub₁, hcard₁, hattests₁⟩ := h₁.attesting
    obtain ⟨-, S₂, hsub₂, hcard₂, hattests₂⟩ := h₂.attesting
    have hnodup := (normalizeValidatorSet_eq_ok h₁.validators).nodup
    have hoverlap := Consensus.card_add_card_le hsub₁ hsub₂
    rw [List.toFinset_card_of_nodup hnodup] at hoverlap
    have hpos : 0 < validators.length := List.length_pos_iff.mpr hne
    refine ⟨S₁ ∩ S₂, third_lt_overlap hpos (by omega), fun v hv => ?_⟩
    obtain ⟨hv₁, hv₂⟩ := Finset.mem_inter.mp hv
    exact ⟨List.mem_toFinset.mp (hsub₁ hv₁), hattests₁ v hv₁, hattests₂ v hv₂⟩
  · obtain ⟨hnodup, hspec⟩ := l.run_spec (h := h) calls
    exact ⟨hnodup, fun e he => (hspec e he).2⟩

/-! ### A sample

One validator signs two blocks at height 5. -/

def sampleValidator : String := "0x1111111111111111111111111111111111111111"

def sampleHost : Host := Host.sample (some sampleValidator) none

def sampleNetwork : String := "zoidberg-public-testnet-v1"

/-- A block hash that repeats a digit. -/
def sampleHash (digit : Char) : String := String.ofList (List.replicate 64 digit)

/-- The attestation of the sample validator for a block. -/
def sampleAttestation (digit : Char) : Attestation :=
  { validatorAddress := sampleValidator, blockHeight := 5, blockHash := sampleHash digit
    networkId := sampleNetwork, signature := "signature"
    message := match buildAttestationMessage sampleHost sampleValidator 5 (sampleHash digit)
        sampleNetwork with
      | .ok message => message
      | .error _ => "" }

def sampleRecord (digit : Char) : Dict :=
  finalizationRecord 5 (sampleHash digit) sampleNetwork [sampleValidator] [sampleAttestation digit]

theorem checkedAttestation_sample {digit : Char} (hdigit : digit = 'a' ∨ digit = 'b') :
    CheckedAttestation sampleHost [sampleValidator] (.str sampleNetwork)
      (sampleAttestation digit) where
  member := List.mem_singleton_self _
  address := by
    have hvalidator : NativeTransfer.normalizeWalletAddress sampleHost.toRuntime
        (.str sampleValidator) = some sampleValidator := by decide +kernel
    exact NativeTransfer.isWalletAddress_of_normalize hvalidator
  height := show (0 : Int) ≤ 5 by decide
  blockHash := by obtain rfl | rfl := hdigit <;> decide +kernel
  network := by
    show normalizeNetworkId sampleHost (.str sampleNetwork) = .ok sampleNetwork
    decide +kernel
  signature := by
    show signatureText (.str "signature") = some "signature"
    decide +kernel
  message := by
    have hbuilds : (buildAttestationMessage sampleHost sampleValidator 5 (sampleHash digit)
        sampleNetwork).isOk = true := by
      obtain rfl | rfl := hdigit <;> decide +kernel
    show buildAttestationMessage sampleHost sampleValidator 5 (sampleHash digit) sampleNetwork =
      .ok (sampleAttestation digit).message
    rw [sampleAttestation]
    cases hm : buildAttestationMessage sampleHost sampleValidator 5 (sampleHash digit)
        sampleNetwork with
    | ok message => rfl
    | error e =>
      rw [hm] at hbuilds
      cases hbuilds
  signer := by
    have hvalidator : WalletSignatures.normalizeWalletAddress sampleHost.toRuntime
        (.str sampleValidator) = some sampleValidator := by decide +kernel
    show WalletSignatures.recoverSignedWalletAddress sampleHost _ _ = .ok sampleValidator
    simp only [WalletSignatures.recoverSignedWalletAddress]
    have hrecover : ∀ m s, sampleHost.recoverMessage m s = some sampleValidator := fun _ _ => rfl
    simp only [hrecover, hvalidator]

theorem acceptedRecord_sample {digit : Char} (hdigit : digit = 'a' ∨ digit = 'b') :
    AcceptedRecord sampleHost [sampleValidator] (.str sampleNetwork) 5 (sampleRecord digit) := by
  have hchecked := checkedAttestation_sample hdigit
  have hset : IsValidatorSet [sampleValidator] :=
    { address := by
        intro v hv
        obtain rfl := List.mem_singleton.mp hv
        exact hchecked.address
      nodup := List.nodup_singleton _
      sorted := by decide +kernel }
  have hvotes : BlockVotes 5 (sampleHash digit) [sampleAttestation digit] :=
    { block := by
        intro c hc
        obtain rfl := List.mem_singleton.mp hc
        exact ⟨rfl, rfl⟩
      sorted := List.pairwise_singleton _ _
      nodup := List.nodup_singleton _ }
  refine ⟨?_, hset.normalize, height_int (by decide)⟩
  refine validate_finalizationRecord (by decide) hchecked.blockHash hset.normalize (by simp)
    hchecked.network hvotes (fun c hc => ?_) le_rfl
  obtain rfl := List.mem_singleton.mp hc
  exact ⟨_, hchecked.validate hset.normalize⟩

theorem accountableFinality_sample :
    ∃ S : Finset String, 0 < S.card ∧ ∀ v ∈ S, v ∈ [sampleValidator] ∧
      Attests sampleHost [sampleValidator] (.str sampleNetwork) 5 (sampleRecord 'a') v ∧
      Attests sampleHost [sampleValidator] (.str sampleNetwork) 5 (sampleRecord 'b') v :=
  (accountableFinality sampleHost).1 _ _ _ _ _ (acceptedRecord_sample (Or.inl rfl))
    (acceptedRecord_sample (Or.inr rfl))

end Finality

end ZoidbergChain
