import ZoidbergChain.CanonicalV3.Finality

/-!
# Proofs of a quorum

The proof that the signatures of a quorum make, with the attestations in the order of the
validators.

- `validateProof_commitment`: such a proof is accepted, so that no size limit rejects it, for up
  to 128 validators.
- `parse_commitment`: its bytes are read again.
- `conflicting_proofs`: proofs of two blocks at one height convict a third of the trusted set.
-/

namespace ZoidbergChain

open Python

namespace CanonicalV3

variable {crypto : Crypto} {ctx : Context}

/-- What a validator signs. -/
def finalityMessage (ctx : Context) (validator : String) (height : Int) (hash : String) :
    ByteArray :=
  encodeUtf8 (canonicalText
    (envelope (attestedPayload validator height hash) "finality-attestation" ctx))

/-- A block, and the signatures of a quorum of a trusted set on it. -/
structure Commitment (crypto : Crypto) (ctx : Context) where
  trusted : List String
  equivocators : List String
  height : Int
  hash : String
  signatures : List (String × String)
  trusted_count : 1 ≤ trusted.length ∧ trusted.length ≤ 128
  trusted_valid : ∀ a ∈ trusted, wallet (.str a) = .ok a
  trusted_order : trusted.Pairwise (· < ·)
  equivocators_valid : ∀ a ∈ equivocators, wallet (.str a) = .ok a
  height_valid : 0 ≤ height ∧ height ≤ maxUint
  hash_valid : h64 (.str hash) = .ok hash
  quorum : finalityQuorum trusted ≤ signatures.length
  order : (signatures.map Prod.fst).Pairwise (· < ·)
  member : ∀ s ∈ signatures, s.1 ∈ trusted ∧ s.1 ∉ equivocators
  signed : ∀ s ∈ signatures,
    verifySignature crypto (finalityMessage ctx s.1 height hash) (.str s.2) (.str s.1) = .ok ()

/-- The fields of an attestation by a validator. -/
def attestationEntries (ctx : Context) (height : Int) (hash : String) (s : String × String) :
    Dict :=
  [("attestation_version", .int 2), ("validator_address", .str s.1), ("block_height", .int height),
    ("block_hash", .str hash), ("network_id", .str ctx.networkId), ("domain", .str finalityDomain),
    ("signature_scheme", .str "personal_sign"), ("signature", .str s.2),
    ("message", decodedText (finalityMessage ctx s.1 height hash))]

namespace Commitment

/-- The fields of the proof. -/
def entries (c : Commitment crypto ctx) : Dict :=
  [("block_height", .int c.height), ("block_hash", .str c.hash),
    ("network_id", .str ctx.networkId), ("domain", .str finalityDomain),
    ("attestation_version", .int 2), ("validator_set", .list (c.trusted.map .str)),
    ("required_quorum", .int (finalityQuorum c.trusted)),
    ("attestations",
      .list (c.signatures.map fun s => .dict (attestationEntries ctx c.height c.hash s)))]

/-- The proof. -/
def proof (c : Commitment crypto ctx) : Value := .dict c.entries

theorem writes_height (c : Commitment crypto ctx) : Writes 0 16 (.int c.height) :=
  writes_uint (uint_eq_ok.mpr ⟨rfl, c.height_valid⟩) (by decide) (le_refl 0) (by decide)
    (le_refl _)

theorem writes_payload (c : Commitment crypto ctx) {a : String}
    (ha : wallet (.str a) = .ok a) : Writes 1 202 (attestedPayload a c.height c.hash) := by
  have hfields : FieldsWrite 0 [("attestation_version", .int 2), ("validator_address", .str a),
      ("block_height", .int c.height), ("block_hash", .str c.hash)]
      [("attestation_version", 1), ("validator_address", 44), ("block_height", 16),
        ("block_hash", 66)] := by
    simp only [FieldsWrite, List.forall₂_cons, List.forall₂_nil_left_iff, true_and, and_true]
    exact ⟨writes_small (by decide) (by decide) (by decide), writes_wallet ha, c.writes_height,
      writes_h64 c.hash_valid⟩
  exact (writes_dict hfields (by decide) (by decide)).mono (le_refl _)
    (by decide)

theorem writes_envelope (c : Commitment crypto ctx) {a : String}
    (ha : wallet (.str a) = .ok a) :
    Writes 2 452 (envelope (attestedPayload a c.height c.hash) "finality-attestation" ctx) :=
  CanonicalV3.writes_envelope (k := 20) (c.writes_payload ha) (by decide) (by decide) (by decide)
    (by decide)

theorem wallet_signer (c : Commitment crypto ctx) {s : String × String} (hs : s ∈ c.signatures) :
    wallet (.str s.1) = .ok s.1 := c.trusted_valid _ (c.member s hs).1

/-- The fields of an attestation with their widths. -/
theorem fieldsWrite_attestation (c : Commitment crypto ctx) {s : String × String}
    (hs : s ∈ c.signatures) : FieldsWrite 0 (attestationEntries ctx c.height c.hash s)
      [("attestation_version", 1), ("validator_address", 44), ("block_height", 16),
        ("block_hash", 66), ("network_id", 66), ("domain", 39), ("signature_scheme", 15),
        ("signature", 134), ("message", 906)] := by
  obtain ⟨sig, hsig, -⟩ := bind_eq_ok.mp (c.signed s hs)
  simp only [attestationEntries, FieldsWrite, List.forall₂_cons, List.forall₂_nil_left_iff,
    true_and, and_true]
  exact ⟨writes_small (by decide) (by decide) (by decide), writes_wallet (c.wallet_signer hs),
    c.writes_height, writes_h64 c.hash_valid, writes_networkId ctx,
    writes_plain (n := 37) (by decide) (by decide) (by decide),
    writes_plain (n := 13) (by decide) (by decide) (by decide), writes_signature hsig,
    writes_message (c.writes_envelope (c.wallet_signer hs)) (by decide)⟩

theorem writes_attestation (c : Commitment crypto ctx) {s : String × String}
    (hs : s ∈ c.signatures) :
    Writes 1 1430 (.dict (attestationEntries ctx c.height c.hash s)) :=
  (writes_dict (c.fieldsWrite_attestation hs) (by decide) (by decide)).mono (le_refl _)
    (by decide)

/-- The signers are distinct members. -/
theorem length_signatures (c : Commitment crypto ctx) :
    c.signatures.length ≤ c.trusted.length := by
  have hnodup : (c.signatures.map Prod.fst).Nodup := c.order.imp ne_of_lt
  have hsubset : c.signatures.map Prod.fst ⊆ c.trusted := by
    intro a ha
    obtain ⟨s, hs, rfl⟩ := List.mem_map.mp ha
    exact (c.member s hs).1
  rw [← List.length_map (f := Prod.fst)]
  exact (List.Nodup.subperm hnodup hsubset).length_le

/-- The fields of the proof with their widths. -/
theorem fieldsWrite (c : Commitment crypto ctx) : FieldsWrite 2 c.entries
    [("block_height", 16), ("block_hash", 66), ("network_id", 66), ("domain", 39),
      ("attestation_version", 1), ("validator_set", 5761), ("required_quorum", 2),
      ("attestations", 183169)] := by
  have hflat : ∀ {n : Nat} {w : Value}, Writes 0 n w → Writes 2 n w := fun hw =>
    hw.mono (by decide) (le_refl _)
  obtain ⟨hpos, hmax⟩ := c.trusted_count
  have hquorum : (0 : Int) ≤ (finalityQuorum c.trusted : Int) ∧
      (finalityQuorum c.trusted : Int) < 10 ^ 2 := by
    rw [finalityQuorum]
    omega
  have hset : Writes 1 (128 * (44 + 1) + 1) (.list (c.trusted.map .str)) := by
    refine writes_list 128 (by decide) ?_ (by decide) fun x hx => ?_
    · rw [List.length_map]
      exact hmax
    · obtain ⟨a, ha, rfl⟩ := List.mem_map.mp hx
      exact writes_wallet (c.trusted_valid a ha)
  have hattestations : Writes 2 (128 * (1430 + 1) + 1) (.list (c.signatures.map fun s =>
      .dict (attestationEntries ctx c.height c.hash s))) := by
    refine writes_list 128 (by decide) ?_ (by decide) fun x hx => ?_
    · rw [List.length_map]
      exact c.length_signatures.trans hmax
    · obtain ⟨s, hs, rfl⟩ := List.mem_map.mp hx
      exact c.writes_attestation hs
  simp only [entries, FieldsWrite, List.forall₂_cons, List.forall₂_nil_left_iff, true_and,
    and_true]
  exact ⟨hflat c.writes_height, hflat (writes_h64 c.hash_valid), hflat (writes_networkId ctx),
    hflat (writes_plain (n := 37) (by decide) (by decide) (by decide)),
    hflat (writes_small (by decide) (by decide) (by decide)), hset.mono (by decide) (le_refl _),
    hflat (writes_small hquorum (by decide) (hquorum.2.le.trans (by decide))), hattestations⟩

theorem writes_proof (c : Commitment crypto ctx) : Writes 3 maxProof c.proof :=
  (writes_dict c.fieldsWrite (by decide) (by decide)).mono (le_refl _)
    (by decide)

end Commitment

/-- The attestation of a signer is accepted. -/
theorem validateAttestation_commitment (c : Commitment crypto ctx) {s : String × String}
    (hs : s ∈ c.signatures) : validateFinalityAttestation crypto ctx
      (.dict (attestationEntries ctx c.height c.hash s)) = .ok () := by
  have hwrites := c.writes_attestation hs
  have hclosed : closed (.dict (attestationEntries ctx c.height c.hash s))
      finalityAttestationFields [] = .ok _ :=
    closed_of_keys (l := finalityAttestationFields) rfl (by decide)
  have hconst : fieldsEqual (.dict (attestationEntries ctx c.height c.hash s))
      [("attestation_version", .int 2), ("network_id", .str ctx.networkId),
        ("domain", .str finalityDomain), ("signature_scheme", .str "personal_sign")] = .ok () :=
    fieldsEqual_of_subset hwrites (by decide) (by simp [attestationEntries])
  have hpayload : finalityPayload (.dict (attestationEntries ctx c.height c.hash s)) =
      attestedPayload s.1 c.height c.hash := rfl
  have hversion : fixed (.int 2) (.int 2) = .ok () := by decide
  have hmessage : finalityBytes ctx (attestedPayload s.1 c.height c.hash) =
      .ok (finalityMessage ctx s.1 c.height c.hash) := by
    have henvelope := c.writes_envelope (c.wallet_signer hs)
    have hsize : (finalityMessage ctx s.1 c.height c.hash).size ≤ 1024 := by
      rw [finalityMessage, size_canonical henvelope.canonical]
      exact henvelope.width.trans (by decide)
    simp only [finalityBytes, bind_eq_ok, require_eq_ok]
    exact ⟨_, closed_of_keys (l := finalityPayloadFields) rfl (by decide), (), hversion,
      s.1, c.wallet_signer hs, c.height, uint_eq_ok.mpr ⟨rfl, c.height_valid⟩, c.hash,
      c.hash_valid, _, henvelope.canonical, (), hsize, rfl⟩
  have htext : fixed (decodedText (finalityMessage ctx s.1 c.height c.hash))
      (decodedText (finalityMessage ctx s.1 c.height c.hash)) = .ok () :=
    (writes_message (c.writes_envelope (c.wallet_signer hs)) (by decide)).fixed
  simp only [validateFinalityAttestation, bind_eq_ok, hpayload]
  exact ⟨_, hclosed, (), hwrites.bounded (by decide), (), hconst, _, hmessage, (), htext,
    c.signed s hs⟩

/-- The proof of a quorum is accepted. -/
theorem validateProof_commitment (c : Commitment crypto ctx) :
    validateFinalityProof crypto ctx c.proof c.trusted c.equivocators (.int c.height)
      (.str c.hash) = .ok () := by
  have hclosed : closed c.proof finalityProofFields [] = .ok _ :=
    closed_of_keys (l := finalityProofFields) rfl (by decide)
  have hfields : fieldsEqual c.proof [("block_height", .int c.height), ("block_hash", .str c.hash),
      ("network_id", .str ctx.networkId), ("domain", .str finalityDomain),
      ("attestation_version", .int 2), ("validator_set", .list (c.trusted.map .str)),
      ("required_quorum", .int (finalityQuorum c.trusted))] = .ok () :=
    fieldsEqual_of_subset c.writes_proof (by decide) (by simp [Commitment.entries])
  have horder : (c.signatures.map fun s =>
      Value.dict (attestationEntries ctx c.height c.hash s)).map
        (fun a => a.textAt "validator_address") = c.signatures.map Prod.fst := by
    rw [List.map_map]
    rfl
  simp only [validateFinalityProof, bind_eq_ok, require_eq_ok, forM_eq_ok, listIn_eq_ok]
  refine ⟨_, hclosed, (), c.writes_proof.bounded (le_refl _), c.height,
    uint_eq_ok.mpr ⟨rfl, c.height_valid⟩, c.hash, c.hash_valid, (), c.trusted_count, (),
    fun a ha => ⟨a, c.trusted_valid a ha, rfl⟩, (),
    Bft.Verifier.eq_sortedSet_iff.mpr c.trusted_order, (),
    fun a ha => ⟨a, c.equivocators_valid a ha, rfl⟩, (), hfields,
    c.signatures.map fun s => .dict (attestationEntries ctx c.height c.hash s), ⟨rfl, ?_, ?_⟩, (),
    ?_, ?_⟩
  · rw [List.length_map]
    exact c.quorum
  · rw [List.length_map]
    exact c.length_signatures
  · intro attestation hattestation
    obtain ⟨s, hs, rfl⟩ := List.mem_map.mp hattestation
    have hblock : fieldsEqual (.dict (attestationEntries ctx c.height c.hash s))
        [("block_height", .int c.height), ("block_hash", .str c.hash)] = .ok () :=
      fieldsEqual_of_subset (c.writes_attestation hs) (by decide) (by simp [attestationEntries])
    exact ⟨(), validateAttestation_commitment c hs, (), hblock, c.member s hs⟩
  · rw [horder]
    exact Bft.Verifier.eq_sortedSet_iff.mpr c.order

/-! ## The order of keys -/

@[simp] theorem validateFinalityAttestation_sortKeys {v : Value} {u : Unit} :
    validateFinalityAttestation crypto ctx (Json.sortKeys v) = .ok u ↔
      validateFinalityAttestation crypto ctx v = .ok u := by
  have hpayload : SameValue (finalityPayload (Json.sortKeys v)) (finalityPayload v) := by
    simp only [SameValue, finalityPayload, finalityPayloadFields, List.map_cons, List.map_nil,
      field_sortKeys, Json.sortKeys, Json.sortChildren, sortKeys_sortKeys]
  have hbytes : ∀ raw, finalityBytes ctx (finalityPayload (Json.sortKeys v)) = .ok raw ↔
      finalityBytes ctx (finalityPayload v) = .ok raw := by
    intro raw
    have hfield : ∀ key, Json.sortKeys ((finalityPayload (Json.sortKeys v)).field key) =
        Json.sortKeys ((finalityPayload v).field key) := by
      intro key
      rw [← field_sortKeys, ← field_sortKeys, show Json.sortKeys _ = Json.sortKeys _ from hpayload]
    have hwallet : ∀ key, wallet ((finalityPayload (Json.sortKeys v)).field key) =
        wallet ((finalityPayload v).field key) := by
      intro key
      rw [← wallet_sortKeys, hfield, wallet_sortKeys]
    have hh64 : ∀ key, h64 ((finalityPayload (Json.sortKeys v)).field key) =
        h64 ((finalityPayload v).field key) := by
      intro key
      rw [← h64_sortKeys, hfield, h64_sortKeys]
    have huint : ∀ key, uint ((finalityPayload (Json.sortKeys v)).field key) 0 maxUint =
        uint ((finalityPayload v).field key) 0 maxUint := by
      intro key
      rw [← uint_sortKeys, hfield, uint_sortKeys]
    have hfixed : ∀ key w u, fixed ((finalityPayload (Json.sortKeys v)).field key) w = .ok u ↔
        fixed ((finalityPayload v).field key) w = .ok u := by
      intro key w u
      rw [← fixed_sortKeys, hfield, fixed_sortKeys]
    have hclosed : ∀ w : Value, closed (finalityPayload w) finalityPayloadFields [] = .ok _ :=
      fun w => closed_of_keys (l := finalityPayloadFields) rfl (by decide)
    simp only [finalityBytes, bind_eq_ok, hclosed, hwallet, hh64, huint, hfixed,
      canonical_congr (sameValue_envelope hpayload _ _), Except.ok.injEq, exists_eq_left']
  simp only [validateFinalityAttestation, bind_eq_ok, exists_closed_and, bounded_sortKeys,
    fieldsEqual_sortKeys, hbytes, field_sortKeys, fixed_sortKeys, verifySignature_sortKeys]

/-- The checks of a proof do not see the order of its keys. -/
theorem validateFinalityProof_sortKeys {v height hash : Value} {trusted equivocators : List String}
    {u : Unit} : validateFinalityProof crypto ctx (Json.sortKeys v) trusted equivocators height
      hash = .ok u ↔ validateFinalityProof crypto ctx v trusted equivocators height hash = .ok u := by
  have hlist : ∀ (low high : Nat) (p : List Value → Prop),
      (∃ xs, validateFinalityProof.listIn (Json.sortKeys (v.field "attestations")) low high =
        .ok xs ∧ p xs) ↔
      ∃ xs, validateFinalityProof.listIn (v.field "attestations") low high = .ok xs ∧
        p (xs.map Json.sortKeys) := by
    intro low high p
    cases v.field "attestations" with
    | list xs =>
      rw [Json.sortKeys, sortItems_eq_map]
      simp only [listIn_eq_ok, Value.list.injEq]
      constructor
      · rintro ⟨ys, ⟨rfl, hlength⟩, hp⟩
        exact ⟨xs, ⟨rfl, by simpa using hlength⟩, hp⟩
      · rintro ⟨ys, ⟨rfl, hlength⟩, hp⟩
        exact ⟨_, ⟨rfl, by simpa using hlength⟩, hp⟩
    | _ => simp [Json.sortKeys, listIn_eq_ok]
  simp only [validateFinalityProof, bind_eq_ok, exists_closed_and, bounded_sortKeys,
    fieldsEqual_sortKeys, field_sortKeys, hlist, forM_eq_ok, forall_mem_map_sortKeys,
    validateFinalityAttestation_sortKeys, textAt_sortKeys, List.map_map, Function.comp_def]

/-- The bytes of the proof of a quorum. They are never evaluated. -/
@[irreducible] def Commitment.bytes (c : Commitment crypto ctx) : ByteArray := encodeUtf8 (canonicalText c.proof)

theorem parse_commitment (c : Commitment crypto ctx) :
    parse c.bytes maxProof = .ok (Json.sortKeys c.proof) := by
  rw [Commitment.bytes]
  refine parse_canonical c.writes_proof.unique c.writes_proof.canonical ?_
  rw [size_canonical c.writes_proof.canonical]
  exact c.writes_proof.width

/-! ## Conflicting proofs -/

/-- Proofs of two blocks at one height convict a third of the trusted set: each of these
validators has signed two different messages. -/
theorem conflicting_proofs {v v' : Value} {trusted equivocators equivocators' : List String}
    {height : Int} {hash hash' : String}
    (h : validateFinalityProof crypto ctx v trusted equivocators (.int height) (.str hash) = .ok ())
    (h' : validateFinalityProof crypto ctx v' trusted equivocators' (.int height) (.str hash') =
      .ok ()) (hne : hash ≠ hash') :
    ∃ convicted : Finset String, trusted.length ≤ 3 * convicted.card ∧
      ∀ a ∈ convicted, a ∈ trusted ∧ a ∉ equivocators ∧ a ∉ equivocators' ∧
        ∃ message message', message ≠ message' ∧ Attested crypto ctx a height hash message ∧
          Attested crypto ctx a height hash' message' := by
  obtain ⟨n, b, signers, hn, hb, accepted⟩ := accepted_of_validateProof h
  obtain ⟨n', b', signers', hn', hb', accepted'⟩ := accepted_of_validateProof h'
  obtain rfl := Value.int.inj hn
  obtain rfl := Value.str.inj hb
  obtain rfl := Value.int.inj hn'
  obtain rfl := Value.str.inj hb'
  refine ⟨signers.toFinset ∩ signers'.toFinset, ?_, ?_⟩
  · exact third_of_quorums accepted.signers_nodup accepted'.signers_nodup
      (fun a ha => (accepted.member a ha).1) (fun a ha => (accepted'.member a ha).1)
      accepted.quorum accepted'.quorum
  · intro a ha
    obtain ⟨hmem, hmem'⟩ := Finset.mem_inter.mp ha
    obtain ⟨htrusted, hclean⟩ := accepted.member a (List.mem_toFinset.mp hmem)
    obtain ⟨-, hclean'⟩ := accepted'.member a (List.mem_toFinset.mp hmem')
    obtain ⟨message, hsigned⟩ := accepted.signed a (List.mem_toFinset.mp hmem)
    obtain ⟨message', hsigned'⟩ := accepted'.signed a (List.mem_toFinset.mp hmem')
    refine ⟨htrusted, hclean, hclean', message, message', ?_, hsigned, hsigned'⟩
    rintro rfl
    exact hne (block_of_message hsigned.1 hsigned'.1).2

/-- A signature of the first reviewer on a block. -/
def sampleCommitment (height : Int) (hash : String) (hheight : 0 ≤ height ∧ height ≤ maxUint)
    (hhash : h64 (.str hash) = .ok hash) : Commitment sampleCrypto sampleContext where
  trusted := [sampleWallet 1]
  equivocators := []
  height := height
  hash := hash
  signatures := [(sampleWallet 1, sampleSignature 1)]
  trusted_count := by decide
  trusted_valid := by
    intro a ha
    obtain rfl := List.mem_singleton.mp ha
    exact wallet_sample (by decide)
  trusted_order := List.pairwise_singleton _ _
  equivocators_valid := by simp
  height_valid := hheight
  hash_valid := hhash
  quorum := by decide
  order := List.pairwise_singleton _ _
  member := by simp
  signed := by
    intro s hs
    obtain rfl := List.mem_singleton.mp hs
    exact verifySignature_sample (by decide) rfl _

/-- What the reviewer has signed twice is found out. -/
theorem conflicting_proofs_sample : ∃ convicted : Finset String, 1 ≤ 3 * convicted.card ∧
    ∀ a ∈ convicted, a ∈ [sampleWallet 1] ∧ a ∉ ([] : List String) ∧ a ∉ ([] : List String) ∧
      ∃ message message', message ≠ message' ∧
        Attested sampleCrypto sampleContext a 1 sampleContext.genesisHash message ∧
        Attested sampleCrypto sampleContext a 1 sampleContext.mediaPolicyDigest message' := by
  have hhash : ∀ s ∈ [sampleContext.genesisHash, sampleContext.mediaPolicyDigest],
      h64 (.str s) = .ok s := by
    intro s hs
    refine pattern_eq_ok.mpr ⟨rfl, sampleContext.hashes_valid s ?_⟩
    exact (by simp : [sampleContext.genesisHash, sampleContext.mediaPolicyDigest] ⊆ _) hs
  have hne : sampleContext.genesisHash ≠ sampleContext.mediaPolicyDigest := by
    intro heq
    have hlists := String.ofList_injective heq
    exact absurd hlists (by decide)
  exact conflicting_proofs
    (validateProof_commitment (sampleCommitment 1 sampleContext.genesisHash (by decide)
      (hhash _ (by simp))))
    (validateProof_commitment (sampleCommitment 1 sampleContext.mediaPolicyDigest (by decide)
      (hhash _ (by simp)))) hne

end CanonicalV3

end ZoidbergChain
