import ZoidbergChain.Bft.Verifier
import ZoidbergChain.CanonicalV3.BlockRecord
import ZoidbergChain.Consensus.Quorum

/-!
# Finality commitments

canonical_v3/finality.py: attestations of blocks by validators, and the proofs that a quorum of
a trusted set makes.

- `accepted_of_validateProof`: what an accepted proof says, and who has signed it.
- `third_of_quorums`: the signers of two proofs overlap in a third of the trusted set.
-/

namespace ZoidbergChain

open Python

namespace CanonicalV3

/-- `ATTESTATION_FIELDS`. -/
def finalityAttestationFields : List String :=
  ["attestation_version", "validator_address", "block_height", "block_hash", "network_id",
    "domain", "signature_scheme", "signature", "message"]

/-- `PROOF_FIELDS`. -/
def finalityProofFields : List String :=
  ["block_height", "block_hash", "network_id", "domain", "attestation_version", "validator_set",
    "required_quorum", "attestations"]

/-- The fields of an attestation that its message commits to. -/
def finalityPayloadFields : List String :=
  ["attestation_version", "validator_address", "block_height", "block_hash"]

/-- The domain of the attestations. -/
def finalityDomain : String := "zoidbergchain/finality-attestation/v2"

/-- The size limit of a proof. -/
def maxProof : Nat := 262144

variable (crypto : Crypto) (ctx : Context)

/-- `finality_bytes`. -/
def finalityBytes (payload : Value) : Py ByteArray := do
  let _ ← closed payload finalityPayloadFields []
  fixed (payload.field "attestation_version") (.int 2)
  let _ ← wallet (payload.field "validator_address")
  let _ ← uint (payload.field "block_height") 0 maxUint
  let _ ← h64 (payload.field "block_hash")
  let message ← canonical (envelope payload "finality-attestation" ctx)
  require (message.size ≤ 1024) (v3Error "finality_message_size")
  .ok message

/-- `{k: value[k] for k in (...)}`. -/
def finalityPayload (v : Value) : Value :=
  .dict (finalityPayloadFields.map fun k => (k, v.field k))

/-- `validate_attestation`. -/
def validateFinalityAttestation (v : Value) : Py Unit := do
  let _ ← closed v finalityAttestationFields []
  bounded v 1536
  fieldsEqual v [("attestation_version", .int 2), ("network_id", .str ctx.networkId),
    ("domain", .str finalityDomain), ("signature_scheme", .str "personal_sign")]
  let message ← finalityBytes ctx (finalityPayload v)
  fixed (v.field "message") (decodedText message)
  verifySignature crypto message (v.field "signature") (v.field "validator_address")

/-- The quorum of a trusted set. -/
def finalityQuorum (trusted : List String) : Nat := (2 * trusted.length + 2) / 3

/-- `validate_proof`, for texts as the trusted validators and as the elements of the set of
equivocators. -/
def validateFinalityProof (v : Value) (trusted equivocators : List String)
    (height hash : Value) : Py Unit := do
  let _ ← closed v finalityProofFields []
  bounded v maxProof
  let _ ← uint height 0 maxUint
  let _ ← h64 hash
  require (1 ≤ trusted.length ∧ trusted.length ≤ 128) (v3Error "trusted_validators")
  trusted.forM fun a => do
    let _ ← wallet (.str a)
  require (trusted = Bft.sortedSet trusted) (v3Error "trusted_validator_order")
  equivocators.forM fun a => do
    let _ ← wallet (.str a)
  let quorum := finalityQuorum trusted
  fieldsEqual v [("block_height", height), ("block_hash", hash),
    ("network_id", .str ctx.networkId), ("domain", .str finalityDomain),
    ("attestation_version", .int 2), ("validator_set", .list (trusted.map .str)),
    ("required_quorum", .int quorum)]
  let attestations ← listIn (v.field "attestations") quorum trusted.length
  attestations.forM fun attestation => do
    validateFinalityAttestation crypto ctx attestation
    fieldsEqual attestation [("block_height", height), ("block_hash", hash)]
    require (attestation.textAt "validator_address" ∈ trusted ∧
      attestation.textAt "validator_address" ∉ equivocators) (v3Error "finality_membership")
  let order := attestations.map fun a => a.textAt "validator_address"
  require (order = Bft.sortedSet order) (v3Error "finality_order")
where
  /-- A list of a bounded length. -/
  listIn (v : Value) (low high : Nat) : Py (List Value) :=
    match v with
    | .list xs =>
      if low ≤ xs.length ∧ xs.length ≤ high then .ok xs else .error (v3Error "finality_count")
    | _ => .error (v3Error "finality_count")

variable {crypto : Crypto} {ctx : Context}

/-! ## What an accepted proof says -/

/-- The payload by which a validator attests a block. -/
def attestedPayload (validator : String) (height : Int) (hash : String) : Value :=
  .dict [("attestation_version", .int 2), ("validator_address", .str validator),
    ("block_height", .int height), ("block_hash", .str hash)]

/-- A validator has signed the message that attests a block. -/
def Attested (crypto : Crypto) (ctx : Context) (validator : String) (height : Int)
    (hash : String) (message : ByteArray) : Prop :=
  finalityBytes ctx (attestedPayload validator height hash) = .ok message ∧
    ∃ sig recovered, crypto.recoverMessage message sig = some recovered ∧
      recovered.toLower = validator

/-- An accepted attestation carries a signature of the validator that it names. -/
theorem attested_of_validateAttestation {v : Value} {height : Int} {hash : String}
    (h : validateFinalityAttestation crypto ctx v = .ok ())
    (hfields : fieldsEqual v [("block_height", .int height), ("block_hash", .str hash)] = .ok ()) :
    ∃ message, Attested crypto ctx (v.textAt "validator_address") height hash message := by
  simp only [validateFinalityAttestation, bind_eq_ok] at h
  obtain ⟨_, -, ⟨⟩, -, ⟨⟩, hconst, message, hmessage, ⟨⟩, -, hsigned⟩ := h
  simp only [fieldsEqual_eq_ok, List.forall_mem_cons] at hfields hconst
  have hversion : v.field "attestation_version" = .int 2 := fixed_int hconst.1
  have hheight : v.field "block_height" = .int height := fixed_int hfields.1
  have hhash : v.field "block_hash" = .str hash := fixed_str hfields.2.1
  simp only [verifySignature, bind_eq_ok, orRaise_eq_ok, require_eq_ok] at hsigned
  obtain ⟨sig, -, validator, hwallet, recovered, hrecovered, hsigner⟩ := hsigned
  have hvalidator : v.field "validator_address" = .str validator := (wallet_eq_ok.mp hwallet).1
  have htext : v.textAt "validator_address" = validator := by
    rw [Value.textAt, hvalidator]
  have hpayload : finalityPayload v = attestedPayload validator height hash := by
    simp only [finalityPayload, finalityPayloadFields, List.map_cons, List.map_nil, hversion,
      hvalidator, hheight, hhash]
    rfl
  rw [hpayload] at hmessage
  rw [htext]
  exact ⟨message, hmessage, sig, recovered, hrecovered, hsigner⟩

/-- The block that a proof finalizes, and the validators of a trusted set that have signed it. -/
structure Accepted (crypto : Crypto) (ctx : Context) (v : Value)
    (trusted equivocators : List String) (height : Int) (hash : String)
    (signers : List String) : Prop where
  height_field : v.field "block_height" = .int height
  hash_field : v.field "block_hash" = .str hash
  height_valid : 0 ≤ height ∧ height ≤ maxUint
  hash_valid : isHexAfter "" 64 hash = true
  trusted_nodup : trusted.Nodup
  signers_nodup : signers.Nodup
  quorum : finalityQuorum trusted ≤ signers.length
  member : ∀ a ∈ signers, a ∈ trusted ∧ a ∉ equivocators
  signed : ∀ a ∈ signers, ∃ message, Attested crypto ctx a height hash message

theorem nodup_of_eq_sortedSet {xs : List String} (h : xs = Bft.sortedSet xs) : xs.Nodup :=
  (Bft.Verifier.eq_sortedSet_iff.mp h).imp ne_of_lt

theorem listIn_eq_ok {v : Value} {low high : Nat} {xs : List Value} :
    validateFinalityProof.listIn v low high = .ok xs ↔
      v = .list xs ∧ low ≤ xs.length ∧ xs.length ≤ high := by
  cases v with
  | list ys =>
    rw [validateFinalityProof.listIn]
    by_cases h : low ≤ ys.length ∧ ys.length ≤ high
    · rw [if_pos h]
      constructor
      · intro heq
        obtain rfl := Except.ok.inj heq
        exact ⟨rfl, h⟩
      · rintro ⟨heq, -⟩
        exact congrArg Except.ok (Value.list.inj heq)
    · rw [if_neg h]
      exact ⟨nofun, fun ⟨heq, hlength⟩ => absurd (Value.list.inj heq ▸ hlength) h⟩
  | _ => exact ⟨nofun, fun h => nomatch h.1⟩

theorem accepted_of_validateProof {v height hash : Value} {trusted equivocators : List String}
    (h : validateFinalityProof crypto ctx v trusted equivocators height hash = .ok ()) :
    ∃ n b signers, height = .int n ∧ hash = .str b ∧
      Accepted crypto ctx v trusted equivocators n b signers := by
  simp only [validateFinalityProof, bind_eq_ok, require_eq_ok, forM_eq_ok, listIn_eq_ok] at h
  obtain ⟨_, -, ⟨⟩, -, n, hn, b, hb, ⟨⟩, -, ⟨⟩, -, ⟨⟩, hsorted, ⟨⟩, -, ⟨⟩, hfields, attestations,
    ⟨-, hquorum, -⟩, ⟨⟩, hattestations, horder⟩ := h
  obtain ⟨rfl, hrange⟩ := uint_eq_ok.mp hn
  obtain ⟨rfl, hhex⟩ := pattern_eq_ok.mp hb
  simp only [fieldsEqual_eq_ok, List.forall_mem_cons] at hfields
  refine ⟨n, b, attestations.map fun a => a.textAt "validator_address", rfl, rfl,
    fixed_int hfields.1, fixed_str hfields.2.1, hrange, hhex, nodup_of_eq_sortedSet hsorted,
    nodup_of_eq_sortedSet horder, ?_, ?_, ?_⟩
  · rw [List.length_map]
    exact hquorum
  · intro a ha
    obtain ⟨attestation, hmem, rfl⟩ := List.mem_map.mp ha
    obtain ⟨⟨⟩, -, ⟨⟩, -, hmember⟩ := hattestations attestation hmem
    exact hmember
  · intro a ha
    obtain ⟨attestation, hmem, rfl⟩ := List.mem_map.mp ha
    obtain ⟨⟨⟩, hvalid, ⟨⟩, hsame, -⟩ := hattestations attestation hmem
    exact attested_of_validateAttestation hvalid hsame

/-- The message of an attestation names its block. -/
theorem block_of_message {validator : String} {height height' : Int} {hash hash' : String}
    {message : ByteArray}
    (h : finalityBytes ctx (attestedPayload validator height hash) = .ok message)
    (h' : finalityBytes ctx (attestedPayload validator height' hash') = .ok message) :
    height = height' ∧ hash = hash' := by
  have hcanonical : ∀ {height : Int} {hash : String},
      finalityBytes ctx (attestedPayload validator height hash) = .ok message →
      canonical (envelope (attestedPayload validator height hash) "finality-attestation" ctx) =
        .ok message := by
    intro height hash h
    simp only [finalityBytes, bind_eq_ok, require_eq_ok] at h
    obtain ⟨_, -, ⟨⟩, -, _, -, _, -, _, -, message', hmessage, ⟨⟩, -, heq⟩ := h
    obtain rfl := Except.ok.inj heq
    exact hmessage
  have hsame := canonical_inj (hcanonical h) (hcanonical h')
  have hfield : ∀ key, (((Json.sortKeys (envelope (attestedPayload validator height hash)
      "finality-attestation" ctx)).field "payload").field key) =
      (((Json.sortKeys (envelope (attestedPayload validator height' hash')
        "finality-attestation" ctx)).field "payload").field key) := by
    intro key
    rw [show Json.sortKeys _ = Json.sortKeys _ from hsame]
  simp only [field_sortKeys] at hfield
  exact ⟨Value.int.inj (hfield "block_height"), Value.str.inj (hfield "block_hash")⟩

/-! ## Overlapping quorums -/

/-- The signers of two proofs under one trusted set overlap in a third of it. -/
theorem third_of_quorums {trusted signers signers' : List String}
    (hsigners : signers.Nodup) (hsigners' : signers'.Nodup)
    (hmember : ∀ a ∈ signers, a ∈ trusted) (hmember' : ∀ a ∈ signers', a ∈ trusted)
    (hquorum : finalityQuorum trusted ≤ signers.length)
    (hquorum' : finalityQuorum trusted ≤ signers'.length) :
    trusted.length ≤ 3 * (signers.toFinset ∩ signers'.toFinset).card := by
  have hsubset : ∀ {xs : List String}, (∀ a ∈ xs, a ∈ trusted) →
      xs.toFinset ⊆ trusted.toFinset := by
    intro xs hxs a ha
    exact List.mem_toFinset.mpr (hxs a (List.mem_toFinset.mp ha))
  have hcard := Consensus.card_add_card_le (hsubset hmember) (hsubset hmember')
  have htrusted : trusted.toFinset.card ≤ trusted.length := List.toFinset_card_le trusted
  rw [List.toFinset_card_of_nodup hsigners, List.toFinset_card_of_nodup hsigners'] at hcard
  unfold finalityQuorum at hquorum hquorum'
  omega

end CanonicalV3

end ZoidbergChain
