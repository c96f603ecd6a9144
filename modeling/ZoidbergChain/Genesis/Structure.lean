import ZoidbergChain.Bft.Wire
import ZoidbergChain.Genesis.PreScan
import ZoidbergChain.Python.Sha256

/-!
# The structure of a genesis

isolated_g2717m/verifier.py: `_outer_tree`, `_source_context`, `_structure` and `_commitments`.

- `structureOf` is `_structure` behind the parsing, `genesisStructure` the whole of it, and
  `unscannedStructure` the same without `_prescan` and `_outer_tree`.
- `commitments` is `_commitments`, the step that `verify_bytes` takes next.

The manifest comes from isolated_bft717k/manifest.py, the agreement descriptor and the public
keys from isolated_bft717j/wire.py; the address of a public key is a parameter.
-/

namespace ZoidbergChain

open Python CanonicalV3 Bft

namespace Genesis

/-! ## Bounds on the tree -/

mutual

/-- `_outer_tree`. -/
def outerTree : Value → Py Unit
  | .null => .error (v3Error "null_outer_field")
  | .dict es => do
    require (es.length ≤ maxMembers) (v3Error "outer_object_count")
    outerEntries es
  | .list xs => do
    require (xs.length ≤ maxElements) (v3Error "outer_array_count")
    outerItems xs
  | .str s => require (s.length ≤ maxToken) (v3Error "outer_string_length")
  | _ => .ok ()

def outerItems : List Value → Py Unit
  | [] => .ok ()
  | x :: xs => do
    outerTree x
    outerItems xs

def outerEntries : List (String × Value) → Py Unit
  | [] => .ok ()
  | (_, v) :: es => do
    outerTree v
    outerEntries es

end

/-! ## Checks of fields -/

/-- `require(uint(value) == n, code)`. -/
def exactly (v : Value) (n : Int) (code : String) : Py Unit := do
  let k ← uint v 0 maxUint
  require (k = n) (v3Error code)

/-- `type(value) is list and low <= len(value) <= high`. -/
def listOf (v : Value) (low high : Nat) (code : String) : Py (List Value) :=
  match v with
  | .list xs => do
    require (low ≤ xs.length ∧ xs.length ≤ high) (v3Error code)
    .ok xs
  | _ => .error (v3Error code)

/-- `type(value) is str`. -/
def asText (v : Value) (code : String) : Py String :=
  match v with
  | .str s => .ok s
  | _ => .error (v3Error code)

/-! ## Policy sources -/

/-- `DEPENDENT_FIELDS`. -/
def dependentFields : List String :=
  ["genesis_hash", "agreement_profile_digest", "application_policy_digest",
    "policy_registry_digest", "initial_state_commitment", "reviewer_bootstrap_digest",
    "native_bootstrap_digest", "bootstrap_history_commitment", "bootstrap_digest",
    "finalized_ref"]

mutual

/-- `_source_context`. -/
def sourceContext (network application : String) : Value → Py Unit
  | .dict es => do
    require (∀ e ∈ es, e.1 ∉ dependentFields) (v3Error "forbidden_source_dependency")
    sourceEntries network application es
  | .list xs => sourceItems network application xs
  | _ => .ok ()

def sourceItems (network application : String) : List Value → Py Unit
  | [] => .ok ()
  | x :: xs => do
    sourceContext network application x
    sourceItems network application xs

def sourceEntries (network application : String) : List (String × Value) → Py Unit
  | [] => .ok ()
  | (k, v) :: es => do
    require ((k = "network_id" → isText v network) ∧ (k = "application" → isText v application))
      (v3Error "source_context_binding")
    sourceContext network application v
    sourceEntries network application es

end

/-- `POLICIES`. -/
def policies : List (String × Int) :=
  [("encoding", 1), ("history", 1), ("issuance", 1), ("media", 2), ("native", 2),
    ("reputation", 3), ("review", 3), ("reviewer", 2), ("rights", 1), ("technical", 1)]

/-- `[0-9a-f]+`. -/
def isHexText (s : String) : Bool := decide (s ≠ "") && s.toList.all isLowerHex

/-- `bytes.fromhex(encoded)`. -/
def sourceOf (encoded : String) : ByteArray := ((readHex encoded.toList).getD []).toByteArray

/-- One entry of the registry: its kind and the digest of its source. -/
def checkPolicy (network application : String) (entry : Value) (policy : String × Int) :
    Py (String × String) := do
  let d ← closed entry ["policy_kind", "policy_version", "canonical_bytes"] []
  require (isText (d.get "policy_kind") policy.1) (v3Error "policy_order_or_version")
  exactly (d.get "policy_version") policy.2 "policy_order_or_version"
  let encoded ← asText (d.get "canonical_bytes") "policy_hex_length"
  require (0 < encoded.length ∧ encoded.length ≤ maxToken ∧ encoded.length % 2 = 0)
    (v3Error "policy_hex_length")
  let _ ← pattern (d.get "canonical_bytes") isHexText
  let source := sourceOf encoded
  let obj ← CanonicalV3.parse source 8192
  let _ ← asObject obj "policy_source_object"
  sourceContext network application obj
  .ok (policy.1, Sha256.hexdigest source)

/-- The policy registry: the digests of the sources. -/
def checkRegistry (network application : String) (v : Value) : Py (List (String × String)) := do
  let pr ← closed v ["domain", "registry_version", "network_id", "policies"] []
  exactly (pr.get "registry_version") 1 "registry_profile"
  require (isText (pr.get "network_id") network ∧
    isText (pr.get "domain") "zoidbergchain/application-policy-registry/v1")
    (v3Error "registry_profile")
  let entries ← listOf (pr.get "policies") 10 10 "policy_count"
  (entries.zip policies).mapM fun e => checkPolicy network application e.1 e.2

/-! ## Bootstraps -/

/-- The reviewer bootstrap: the wallets of the reviewers. -/
def checkReviewers (network : String) (v : Value) : Py (List String) := do
  let b ← closed v ["bootstrap_version", "network_id", "reviewer_policy_digest",
    "reputation_rule_digest", "reviewers"] []
  exactly (b.get "bootstrap_version") 1 "reviewer_profile"
  require (isText (b.get "network_id") network) (v3Error "reviewer_profile")
  let reviewers ← listOf (b.get "reviewers") 0 128 "reviewer_count"
  let wallets ← reviewers.mapM wallet
  require (wallets = sortedSet wallets) (v3Error "reviewer_order_or_duplicate")
  .ok wallets

/-- The most units of an amount of the bootstrap. -/
def maxUnits : Nat := 10 ^ 15

/-- One allocation, behind the previous wallet: its wallet and the pool with its balance. -/
def checkAllocation (s : String × Nat) (account : Value) : Py (String × Nat) := do
  let a ← closed account ["wallet_address", "balance", "next_nonce"] []
  let w ← wallet (a.get "wallet_address")
  require (s.1 < w) (v3Error "allocation_order_or_duplicate")
  require (a.get "next_nonce" = .str "1") (v3Error "initial_nonce")
  let units ← decimalUnits (a.get "balance") true (some maxUnits)
  .ok (w, s.2 + units)

/-- The native bootstrap. -/
def checkNative (network : String) (v : Value) : Py Unit := do
  let nb ← closed v ["native_state_version", "network_id", "total_supply",
    "initial_reward_pool", "allocations"] []
  exactly (nb.get "native_state_version") 1 "native_profile"
  require (isText (nb.get "network_id") network) (v3Error "native_profile")
  let total ← decimalUnits (nb.get "total_supply") false (some maxUnits)
  let pool ← decimalUnits (nb.get "initial_reward_pool") false (some maxUnits)
  let allocations ← listOf (nb.get "allocations") 0 4096 "allocation_count"
  let (_, pool) ← allocations.foldlM checkAllocation ("", pool)
  require (pool = total) (v3Error "supply_conservation")

/-- The history bootstrap. -/
def checkHistory (v : Value) : Py Unit := do
  let h ← closed v ["history_version", "bootstrap_events", "bootstrap_history_commitment",
    "initial_state", "initial_state_commitment"] []
  exactly (h.get "history_version") 1 "clean_history"
  require (h.get "bootstrap_events" = .list []) (v3Error "clean_history")
  let s ← closed (h.get "initial_state") ["state_version", "policy_registry_digest",
    "reviewer_bootstrap_digest", "native_bootstrap_digest", "bootstrap_history_commitment"] []
  exactly (s.get "state_version") 1 "state_version"

/-! ## The agreement descriptor -/

/-- `LIMITS`. -/
def limits : Dict :=
  [("agreement_bytes", .int 4096), ("block_bytes", .int 3145728),
    ("commit_proof_bytes", .int 16384), ("envelope_bytes", .int 2048),
    ("manifest_bytes", .int 8192), ("max_depth", .int 32), ("max_round", .int maxRound),
    ("max_uint", .int maxUint), ("prevote_certificate_bytes", .int 12288),
    ("proposal_bundle_bytes", .int 3160400), ("round_evidence_bytes", .int 8192),
    ("signed_bytes", .int 2304)]

/-- The fields of `descriptor`. -/
def descriptorFields (policyDigest : String) : Dict :=
  [("agreement_version", .int 1), ("application_policy_digest", .str policyDigest),
    ("authority_profile", .str "static-genesis-n4-f1-q3-v1"),
    ("domain", .str "zoidbergchain/bft-agreement/v1"), ("limits", .dict limits),
    ("parent_profile", .str "immediate-finalized-v1"),
    ("proposer_profile", .str "height-minus-one-plus-round-mod-four-v1"),
    ("protocol", .str "zoidbergchain"), ("protocol_version", .int 2),
    ("reference", .str "arxiv:1807.04938v3/Algorithm1"),
    ("rule_selection", .str "printed-lines-1-67"),
    ("signer_profile", .str "reserve-sign-store-release-v1"),
    ("timeout_profile", .str "linear-1000ms-plus-1000ms-per-round-v1"),
    ("wire_profile", .str "bft-ascii-json-v1")]

/-- `descriptor`. -/
def descriptor (policyDigest : Value) : Py Value := do
  let digest ← h64 policyDigest
  .ok (.dict (descriptorFields digest))

/-! ## The validator manifest -/

/-- `pow(b, e, m)`, for an exponent of so many bits. -/
def powMod : Nat → Nat → Nat → Nat → Nat
  | 0, _, _, m => 1 % m
  | bits + 1, b, e, m =>
    let half := powMod bits (b * b % m) (e / 2) m
    if e % 2 = 1 then b * half % m else half

/-- The order of the field of the curve. -/
def fieldOrder : Nat := 2 ^ 256 - 2 ^ 32 - 977

/-- `0[23][0-9a-f]{64}`. -/
def isPublicKey (s : String) : Bool := isHexAfter "02" 64 s || isHexAfter "03" 64 s

/-- The checks of `public_key`. -/
def publicKey (v : Value) : Py String := do
  let s ← pattern v isPublicKey
  let x := hexNumber (s.toList.drop 2)
  require (x < fieldOrder ∧
    powMod 256 ((x * x * x + 7) % fieldOrder) ((fieldOrder - 1) / 2) fieldOrder = 1)
    (v3Error "public_key_point")
  .ok s

/-- The fields of a manifest. -/
def manifestFields : List String :=
  ["domain", "membership_version", "protocol", "protocol_version", "network_id",
    "authority_profile", "validator_epoch", "byzantine_fault_budget", "required_quorum",
    "validator_public_keys"]

/-- `_validate`, for the address that `eth_keys` gives to a public key. -/
def validateManifest (address : String → String) (raw : ByteArray) : Py Dict := do
  let v ← Bft.parse raw 8192
  let m ← closed v manifestFields []
  let _ ← pattern (m.get "network_id") isNetworkId
  exactly (m.get "membership_version") 1 "manifest_membership_version"
  exactly (m.get "protocol_version") 2 "manifest_protocol_version"
  exactly (m.get "validator_epoch") 0 "manifest_validator_epoch"
  exactly (m.get "byzantine_fault_budget") 1 "manifest_byzantine_fault_budget"
  exactly (m.get "required_quorum") 3 "manifest_required_quorum"
  require (isText (m.get "domain") "zoidbergchain/validator-set/v1" ∧
    isText (m.get "protocol") "zoidbergchain" ∧
    isText (m.get "authority_profile") "static-genesis-v1") (v3Error "manifest_profile")
  let keys ← listOf (m.get "validator_public_keys") 4 4 "manifest_count"
  let pubs ← keys.mapM publicKey
  require pubs.Nodup (v3Error "duplicate_public_key")
  require (pubs.map address).Nodup (v3Error "duplicate_validator_identity")
  require (pubs.Pairwise (· ≤ ·)) (v3Error "manifest_order")
  .ok m

/-- `AuthorityFailure(Outcome.INVALID_MANIFEST, exc.code)`. -/
def invalidManifest (e : PyError) : PyError :=
  { exc := .valueError, message := "INVALID_MEMBERSHIP_MANIFEST: " ++ e.code.getD e.message,
    code := some "INVALID_MEMBERSHIP_MANIFEST" }

/-- `Manifest`. -/
def manifest (address : String → String) (raw : ByteArray) : Py Dict :=
  match validateManifest address raw with
  | .ok m => .ok m
  | .error e => .error (if e.exc = .v3Error then invalidManifest e else e)

/-! ## The genesis -/

/-- The components of a payload, as `J` writes them. -/
structure Components where
  validatorManifest : ByteArray
  agreementDescriptor : ByteArray
  policyRegistry : ByteArray
  reviewerBootstrap : ByteArray
  nativeBootstrap : ByteArray

/-- `{name: J(p[name]) for name in CAPS}`. -/
def componentsOf (p : Dict) : Py Components := do
  let validatorManifest ← J (p.get "validator_manifest")
  let agreementDescriptor ← J (p.get "agreement_descriptor")
  let policyRegistry ← J (p.get "policy_registry")
  let reviewerBootstrap ← J (p.get "reviewer_bootstrap")
  let nativeBootstrap ← J (p.get "native_bootstrap")
  .ok ⟨validatorManifest, agreementDescriptor, policyRegistry, reviewerBootstrap,
    nativeBootstrap⟩

/-- The sizes of the components, with `CAPS`. -/
def Components.sizes (c : Components) : List (String × Nat × Nat) :=
  [("validator_manifest", c.validatorManifest.size, 8192),
    ("agreement_descriptor", c.agreementDescriptor.size, 4096),
    ("policy_registry", c.policyRegistry.size, 65536),
    ("reviewer_bootstrap", c.reviewerBootstrap.size, 8192),
    ("native_bootstrap", c.nativeBootstrap.size, 786432)]

/-- `PAYLOAD`. -/
def payloadFields : List String :=
  ["genesis_version", "index", "previous_hash", "application", "initial_block_version",
    "consensus_message_version", "validator_manifest", "validator_set_commitment",
    "agreement_descriptor", "agreement_profile_digest", "policy_registry",
    "policy_registry_digest", "reviewer_bootstrap", "reviewer_bootstrap_digest",
    "native_bootstrap", "native_bootstrap_digest", "history_bootstrap"]

/-- What `_structure` returns. -/
structure Structure where
  envelope : Value
  components : Components
  sources : List (String × String)
  manifest : Dict

/-- The checks of the components, behind those of their sizes. -/
def checkComponents (address : String → String) (network application : String) (p : Dict)
    (c : Components) : Py (List (String × String) × Dict) := do
  let sources ← checkRegistry network application (p.get "policy_registry")
  let _ ← checkReviewers network (p.get "reviewer_bootstrap")
  checkNative network (p.get "native_bootstrap")
  checkHistory (p.get "history_bootstrap")
  let d ← asObject (p.get "agreement_descriptor") "agreement_schema"
  require ((Dict.get? d "application_policy_digest").isSome = true) (v3Error "agreement_schema")
  let agreed ← descriptor (d.get "application_policy_digest")
  let written ← J agreed
  require (c.agreementDescriptor = written) (v3Error "agreement_profile")
  let m ← asObject (p.get "validator_manifest") "manifest_network"
  require (isText (m.get "network_id") network) (v3Error "manifest_network")
  let m ← manifest address c.validatorManifest
  .ok (sources, m)

/-- `_structure`, behind its parsing of so many bytes. -/
def structureOf (address : String → String) (size : Nat) (e : Value) : Py Structure := do
  let d ← closed e Bft.envelopeFields []
  let n ← pattern (d.get "network_id") isNetworkId
  exactly (d.get "protocol_version") 2 "genesis_envelope_profile"
  require (isText (d.get "protocol") "zoidbergchain" ∧
    isText (d.get "domain") "zoidbergchain/genesis/v2" ∧
    isText (d.get "object_type") "genesis") (v3Error "genesis_envelope_profile")
  let p ← closed (d.get "payload") payloadFields []
  exactly (p.get "genesis_version") 2 "genesis_genesis_version"
  exactly (p.get "index") 0 "genesis_index"
  exactly (p.get "initial_block_version") 4 "genesis_initial_block_version"
  exactly (p.get "consensus_message_version") 1 "genesis_consensus_message_version"
  let previous ← h64 (p.get "previous_hash")
  require (previous = String.ofList (List.replicate 64 '0')) (v3Error "genesis_parent")
  let application ← pattern (p.get "application") isApplication
  let c ← componentsOf p
  c.sizes.forM fun s => require (s.2.1 ≤ s.2.2) (v3Error (s.1 ++ "_size"))
  require (size ≤ (c.sizes.map fun s => s.2.1).sum + 16384) (v3Error "residual_size")
  let (sources, m) ← checkComponents address n application p c
  .ok ⟨e, c, sources, m⟩

/-- `_structure` without `_prescan` and `_outer_tree`. -/
def unscannedStructure (address : String → String) (raw : ByteArray) : Py Structure := do
  let e ← Bft.parse raw genesisLimit
  structureOf address raw.size e

/-- `_structure`. -/
def genesisStructure (address : String → String) (raw : ByteArray) : Py Structure := do
  preScan raw
  let e ← Bft.parse raw genesisLimit
  outerTree e
  structureOf address raw.size e

/-! ## Commitments -/

/-- `envelope`. -/
def purposeEnvelope (kind : String) (payload network : Value) : Py Value := do
  require (kind ∈ ["genesis", "reviewer-bootstrap", "native-bootstrap", "history-bootstrap",
    "initial-state"]) (v3Error "purpose")
  let version := if kind = "genesis" then "v2" else "v1"
  .ok (.dict [("domain", .str ("zoidbergchain/" ++ kind ++ "/" ++ version)),
    ("network_id", network), ("object_type", .str kind), ("payload", payload),
    ("protocol", .str "zoidbergchain"), ("protocol_version", .int 2)])

/-- `sha(J(envelope(kind, payload, network)))`. -/
def purposeDigest (kind : String) (payload network : Value) : Py String := do
  let e ← purposeEnvelope kind payload network
  let raw ← J e
  .ok (Sha256.hexdigest raw)

/-- `_match`. -/
def matchDigest (declared : Value) (actual label : String) : Py Unit := do
  let d ← h64 declared
  require (d = actual) (.value label)

/-- `_commitments`. -/
def commitments (s : Structure) : Py Unit := do
  let p := s.envelope.field "payload"
  let n := s.envelope.field "network_id"
  let c := s.components
  matchDigest (p.field "validator_set_commitment") (Sha256.hexdigest c.validatorManifest)
    "validator_set_commitment"
  matchDigest (p.field "agreement_profile_digest") (Sha256.hexdigest c.agreementDescriptor)
    "agreement_profile_digest"
  matchDigest (p.field "policy_registry_digest") (Sha256.hexdigest c.policyRegistry)
    "policy_registry_digest"
  matchDigest ((p.field "agreement_descriptor").field "application_policy_digest")
    (p.textAt "policy_registry_digest") "agreement_registry"
  let b := p.field "reviewer_bootstrap"
  matchDigest (b.field "reviewer_policy_digest") ((s.sources.lookup "reviewer").getD "")
    "reviewer_source"
  matchDigest (b.field "reputation_rule_digest") ((s.sources.lookup "reputation").getD "")
    "reputation_source"
  let reviewer ← purposeDigest "reviewer-bootstrap" b n
  matchDigest (p.field "reviewer_bootstrap_digest") reviewer "reviewer_bootstrap"
  let native ← purposeDigest "native-bootstrap" (p.field "native_bootstrap") n
  matchDigest (p.field "native_bootstrap_digest") native "native_bootstrap"
  let h := p.field "history_bootstrap"
  let hd ← purposeDigest "history-bootstrap"
    (.dict [("history_version", .int 1), ("bootstrap_events", .list [])]) n
  matchDigest (h.field "bootstrap_history_commitment") hd "history_bootstrap"
  let t := h.field "initial_state"
  matchDigest (t.field "policy_registry_digest") (p.textAt "policy_registry_digest")
    "initial_state_policy_registry_digest"
  matchDigest (t.field "reviewer_bootstrap_digest") (p.textAt "reviewer_bootstrap_digest")
    "initial_state_reviewer_bootstrap_digest"
  matchDigest (t.field "native_bootstrap_digest") (p.textAt "native_bootstrap_digest")
    "initial_state_native_bootstrap_digest"
  matchDigest (t.field "bootstrap_history_commitment") hd "initial_state_history"
  let state ← purposeDigest "initial-state" t n
  matchDigest (h.field "initial_state_commitment") state "initial_state"

end Genesis

end ZoidbergChain
