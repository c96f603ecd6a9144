import ZoidbergChain.NativeTransferStable
import ZoidbergChain.Python.Control
import ZoidbergChain.Python.Table

/-!
# Finality by validator quorum

Attestations and finalization records (services/finality_service.py,
protocol_v1_finality.py).

- `validateAttestation` checks an attestation against a validator set and a network.
- `votesForBlock` counts the attestations for a block, one per validator, without the
  validators that attest two hashes at its height.
- `processAttestation` takes a new attestation in and finalizes on a quorum.
- `validateFinalizationEvidence` checks a finalization record on its own.
-/

namespace ZoidbergChain

open Python

/-- `wallet_signatures.canonicalize_wallet_message`: both kinds of line end become one. -/
def canonicalLines : List Char → List Char
  | '\r' :: '\n' :: cs => '\n' :: canonicalLines cs
  | '\r' :: cs => '\n' :: canonicalLines cs
  | c :: cs => c :: canonicalLines cs
  | [] => []

/-- `wallet_signatures.recover_signed_wallet_address`. -/
def WalletSignatures.recoverSignedWalletAddress (h : Host) (message signature : String) :
    Py String :=
  match h.recoverMessage (String.ofList (canonicalLines message.toList)) signature with
  | none => .error (.value "Malformed signature or unsupported signature payload.")
  | some recovered =>
    match WalletSignatures.normalizeWalletAddress h.toRuntime (.str recovered) with
    | none => .error (.value "Recovered signature address is invalid.")
    | some normalized => .ok normalized

namespace Finality

/-! ## Constants -/

/-- `PROTOCOL_V1_FINALITY_ATTESTATION_VERSION`. -/
def attestationVersion : Int := protocolVersion

/-- `PROTOCOL_V1_FINALITY_ATTESTATION_DOMAIN`. -/
def attestationDomain : String := protocolDomain .finalityAttestation

/-- `NATIVE_TRANSFER_SIGNATURE_SCHEME`. -/
def signatureScheme : String := "personal_sign"

/-- `raise FinalityAttestationError(message)`. -/
def attestationError (message : String) : PyError :=
  { exc := .finalityAttestationError, message }

/-- The keys of a `dict` are exactly these. -/
def hasExactly (d : Dict) (fields : List String) : Bool :=
  d.keys.all (fields.contains ·) && fields.all (d.keys.contains ·)

/-- A `dict` with exactly these keys, or the error with that message. -/
def closedDict (v : Value) (fields : List String) (message : String) : Py Dict :=
  match v with
  | .dict d => if hasExactly d fields then .ok d else .error (attestationError message)
  | _ => .error (attestationError message)

/-! ## Validator sets -/

/-- An address of a validator set. -/
def validatorAddress (h : Host) (identity : Value) : Py String :=
  orRaise (NativeTransfer.normalizeWalletAddress h.toRuntime identity)
    (attestationError "Validator set contains an invalid Ethereum-style 0x address.")

/-- `tuple(sorted(set(addresses)))`. -/
def sortedSet (addresses : List String) : List String :=
  addresses.dedup.insertionSort (· ≤ ·)

/-- `normalize_validator_set`. -/
def normalizeValidatorSet (h : Host) (identities : Value) : Py (List String) :=
  match identities with
  | .null => .ok []
  | .list values => do
    let normalized ← values.mapM (validatorAddress h)
    .ok (sortedSet normalized)
  | .dict entries => do
    let normalized ← entries.mapM fun e => validatorAddress h (.str e.1)
    .ok (sortedSet normalized)
  | _ =>
    .error (attestationError "Validator set must be an iterable of Ethereum addresses.")

/-- `required_quorum`. -/
def requiredQuorum (validatorCount : Nat) : Nat := (2 * validatorCount + 2) / 3

/-! ## Attestations -/

/-- `FinalityService._height`. -/
def height (h : Host) (value : Value) : Py Int :=
  let malformed := attestationError "block_height must be a non-negative integer."
  match value with
  | .bool _ => .error malformed
  | _ =>
    match value.toInt with
    | .error e => .error (if e.exc = .overflowError then e else malformed)
    | .ok n =>
      if 0 ≤ n ∧ strip (value.text h.toRuntime) = toString n then .ok n else .error malformed

/-- `str(value or "").strip().lower()`. -/
def lowerText (h : Host) (value : Value) : String := h.lower (value.trimmed h.toRuntime)

/-- `build_protocol_v1_finality_attestation_message`, for the normalized fields of an
attestation. -/
def buildAttestationMessage (h : Host) (validatorAddress : String) (blockHeight : Int)
    (blockHash networkId : String) : Py String := do
  let validator ← orRaise
    (NativeTransfer.normalizeWalletAddress h.toRuntime (.str validatorAddress))
    (.value "validator_address must be a valid Ethereum-style 0x address.")
  let blockHash := lowerText h (.str blockHash)
  require (isValidContentHash (.str blockHash) = true)
    (.value "block_hash must be a 64-character lowercase hexadecimal hash.")
  require (0 ≤ blockHeight) (.value "block_height must be a non-negative integer.")
  let networkId ← normalizeNetworkId h (.str networkId)
  let payload : Dict := [("attestation_version", .int attestationVersion),
    ("validator_address", .str validator), ("block_height", .int blockHeight),
    ("block_hash", .str blockHash)]
  let envelope ← buildDomainEnvelope h (.dict payload) .finalityAttestation (.str networkId)
  canonicalJsonText (.dict envelope)

/-- `_ATTESTATION_FIELDS`. -/
def attestationFields : List String :=
  ["attestation_version", "validator_address", "block_height", "block_hash", "network_id",
    "domain", "signature_scheme", "signature", "message"]

/-- An attestation that has been checked. -/
structure Attestation where
  validatorAddress : String
  blockHeight : Int
  blockHash : String
  networkId : String
  signature : String
  message : String
  deriving DecidableEq

def Attestation.toDict (a : Attestation) : Dict :=
  [("attestation_version", .int attestationVersion),
    ("validator_address", .str a.validatorAddress), ("block_height", .int a.blockHeight),
    ("block_hash", .str a.blockHash), ("network_id", .str a.networkId),
    ("domain", .str attestationDomain), ("signature_scheme", .str signatureScheme),
    ("signature", .str a.signature), ("message", .str a.message)]

/-- The fields of an attestation that are normalized first. -/
structure Subject where
  validator : Option String
  height : Int
  blockHash : String
  networkId : String

def readSubject (h : Host) (attestation : Dict) : Py Subject := do
  let validator :=
    NativeTransfer.normalizeWalletAddress h.toRuntime (attestation.get "validator_address")
  let height ← height h (attestation.get "block_height")
  let blockHash := lowerText h (attestation.get "block_hash")
  let networkId ← normalizeNetworkId h (attestation.get "network_id")
  .ok { validator, height, blockHash, networkId }

/-- `except ValueError as exc: raise FinalityAttestationError(...)`. -/
def asAttestationError {α : Type} (x : Py α) (message : PyError → String) : Py α :=
  exceptValueError x fun e => .error (attestationError (message e))

/-- The text of a signature that is not blank, stripped. -/
def signatureText : Value → Option String
  | .str s => if strip s = "" then none else some (strip s)
  | _ => none

/-- `validate_attestation`. -/
def validateAttestation (h : Host) (attestation validatorSet expectedNetworkId : Value) :
    Py Attestation := do
  let a ← closedDict attestation attestationFields
    "Finality attestation has an invalid canonical shape."
  let validators ← normalizeValidatorSet h validatorSet
  let subject ← asAttestationError (readSubject h a) PyError.message
  let validator ← orRaise subject.validator
    (attestationError "validator_address must be a valid Ethereum-style 0x address.")
  require (validator ∈ validators)
    (attestationError "Attestation signer is not in the configured validator set.")
  let expected ← normalizeNetworkId h expectedNetworkId
  require (subject.networkId = expected)
    (attestationError "Finality attestation network_id does not match this network.")
  require ((a.get "attestation_version").pyEq (.int attestationVersion) = true ∧
    (a.get "domain").pyEq (.str attestationDomain) = true)
    (attestationError "Unsupported finality attestation domain or version.")
  require ((a.get "signature_scheme").pyEq (.str signatureScheme) = true)
    (attestationError "Finality attestation must have a personal_sign signature.")
  let signature ← orRaise (signatureText (a.get "signature"))
    (attestationError "Finality attestation must have a personal_sign signature.")
  let message ← asAttestationError
    (buildAttestationMessage h validator subject.height subject.blockHash subject.networkId)
    PyError.message
  require ((a.get "message").pyEq (.str message) = true) (attestationError
    "Finality attestation message is not canonical or does not match its fields.")
  let recovered ← asAttestationError
    (WalletSignatures.recoverSignedWalletAddress h message signature)
    fun _ => "Finality attestation signature is invalid."
  require (recovered = validator)
    (attestationError "Finality attestation signature does not match validator_address.")
  .ok { validatorAddress := validator, blockHeight := subject.height
        blockHash := subject.blockHash, networkId := subject.networkId, signature, message }

/-! ## Votes -/

/-- The checked attestations, first by validator and height, then by block hash. -/
abbrev Ballots := Table (String × Int) (Table String Attestation)

/-- `by_validator.setdefault(key, {})[block_hash] = checked`. -/
def Ballots.record (b : Ballots) (checked : Attestation) : Ballots :=
  let key := (checked.validatorAddress, checked.blockHeight)
  b.set key (((b.get? key).getD []).set checked.blockHash checked)

/-- The candidates that pass, in order. Only `FinalityAttestationError` is caught. -/
def validAttestations (h : Host) (validatorSet expectedNetworkId : Value) :
    List Value → Py (List Attestation)
  | [] => .ok []
  | candidate :: rest =>
    match validateAttestation h candidate validatorSet expectedNetworkId with
    | .ok checked => do
      let more ← validAttestations h validatorSet expectedNetworkId rest
      .ok (checked :: more)
    | .error e =>
      if e.exc = .finalityAttestationError then
        validAttestations h validatorSet expectedNetworkId rest
      else .error e

/-- The validators that attest several hashes at the height. -/
def Ballots.equivocations (b : Ballots) (blockHeight : Int) : List String :=
  (b.filter fun e => e.1.2 = blockHeight ∧ 1 < e.2.length).map fun e => e.1.1

/-- The votes for the block of the validators that do not equivocate. -/
def Ballots.votes (b : Ballots) (blockHeight : Int) (blockHash : String) : List Attestation :=
  (b.filter fun e => e.1.2 = blockHeight ∧ e.1.1 ∉ b.equivocations blockHeight).filterMap
    fun e => e.2.get? blockHash

/-- `votes_for_block`: the votes by validator address, and the equivocating validators. -/
def votesForBlock (h : Host) (attestations : List Value) (validatorSet expectedNetworkId : Value)
    (blockHeight : Int) (blockHash : String) : Py (List Attestation × List String) := do
  let checked ← validAttestations h validatorSet expectedNetworkId attestations
  let ballots := checked.foldl Ballots.record []
  .ok ((ballots.votes blockHeight blockHash).insertionSort
      fun a b => a.validatorAddress ≤ b.validatorAddress,
    ballots.equivocations blockHeight)

/-! ## Processing -/

/-- `_finalized_match`: the record of the height, `none` when there is none; a record with
another hash is `some none`. -/
def finalizedMatch (finalizedBlocks : List Value) (height : Int) (blockHash : String) :
    Option (Option Dict) :=
  match finalizedBlocks with
  | [] => none
  | .dict record :: rest =>
    if (Dict.get record "block_height").pyEq (.int height) = true then
      some (if (Dict.get record "block_hash").pyEq (.str blockHash) = true then some record
        else none)
    else finalizedMatch rest height blockHash
  | _ :: rest => finalizedMatch rest height blockHash

inductive Status where
  | duplicate
  | equivocation
  | accepted
  deriving DecidableEq

/-- The result of `process_attestation`. A duplicate has no counts. -/
structure Processed where
  attestation : Attestation
  status : Status
  finalization : Option Dict
  voteCount : Option Nat := none
  requiredQuorum : Option Nat := none
  equivocatingValidators : List String := []

/-- The finalization record of a block. -/
def finalizationRecord (blockHeight : Int) (blockHash networkId : String)
    (validators : List String) (votes : List Attestation) : Dict :=
  [("block_height", .int blockHeight), ("block_hash", .str blockHash),
    ("network_id", .str networkId), ("domain", .str attestationDomain),
    ("attestation_version", .int attestationVersion),
    ("validator_set", .list (validators.map .str)),
    ("required_quorum", .int (requiredQuorum validators.length)),
    ("attestations", .list (votes.map fun a => .dict a.toDict))]

/-- `any(candidate.get("message") == message for candidate in attestations)`. -/
def hasMessage (attestations : List Value) (message : String) : Py Bool := do
  let found ← findPy (fun candidate => do
    let c ← candidate.asDict
    .ok ((c.get "message").pyEq (.str message))) attestations
  .ok found.isSome

/-- `canonical_block` as a dictionary. -/
def canonicalTarget (h : Host) (canonicalBlock : Value) : Py (Int × String) :=
  match canonicalBlock with
  | .dict block => do
    let height ← height h (Dict.get block "index")
    .ok (height, lowerText h (Dict.get block "hash"))
  | _ => .error (attestationError "Finality target must be an existing canonical block.")

/-- `process_attestation`. -/
def processAttestation (h : Host) (attestation validatorSet expectedNetworkId
    canonicalBlock : Value) (existingAttestations finalizedBlocks : List Value) :
    Py Processed := do
  let checked ← validateAttestation h attestation validatorSet expectedNetworkId
  let target ← canonicalTarget h canonicalBlock
  require ((checked.blockHeight, checked.blockHash) = target) (attestationError
    "Finality attestation does not reference the exact canonical block.")
  let locked := finalizedMatch finalizedBlocks target.1 target.2
  require (locked ≠ some none)
    (attestationError "A conflicting block is already finalized at this height.")
  let duplicate ← hasMessage existingAttestations checked.message
  if duplicate then
    .ok { attestation := checked, status := .duplicate, finalization := locked.join }
  else do
    let updated := existingAttestations ++ [.dict checked.toDict]
    let (votes, equivocations) ←
      votesForBlock h updated validatorSet expectedNetworkId target.1 target.2
    let validators ← normalizeValidatorSet h validatorSet
    let quorum := requiredQuorum validators.length
    let networkId ← normalizeNetworkId h expectedNetworkId
    .ok { attestation := checked
          status := if checked.validatorAddress ∈ equivocations then .equivocation else .accepted
          finalization :=
            if locked = none ∧ validators ≠ [] ∧ quorum ≤ votes.length then
              some (finalizationRecord target.1 target.2 networkId validators votes)
            else none
          voteCount := some votes.length, requiredQuorum := some quorum
          equivocatingValidators := equivocations.insertionSort (· ≤ ·) }

/-! ## Evidence -/

def evidenceFields : List String :=
  ["block_height", "block_hash", "network_id", "domain", "attestation_version", "validator_set",
    "required_quorum", "attestations"]

/-- `n < v`, for a number `v`. -/
def countBelow (n : Nat) (v : Value) : Py Bool :=
  match v.number? with
  | some q => .ok (decide ((n : Rat) < q))
  | none => .error (.type "'<' not supported")

/-- `validate_finalization_evidence`. -/
def validateFinalizationEvidence (h : Host) (record expectedNetworkId : Value) : Py Value := do
  let r ← closedDict record evidenceFields "Finality evidence has an invalid canonical shape."
  let validators ← normalizeValidatorSet h (r.get "validator_set")
  let height ← height h (r.get "block_height")
  let blockHash := lowerText h (r.get "block_hash")
  require (validators ≠ [] ∧
    (r.get "required_quorum").pyEq (.int (requiredQuorum validators.length)) = true)
    (attestationError "Finality evidence has an invalid validator-set quorum.")
  let networkId ← normalizeNetworkId h expectedNetworkId
  require ((r.get "network_id").pyEq (.str networkId) = true ∧
    (r.get "domain").pyEq (.str attestationDomain) = true ∧
    (r.get "attestation_version").pyEq (.int attestationVersion) = true)
    (attestationError "Finality evidence has the wrong Protocol v1 domain.")
  let attestations ← (match r.get "attestations" with
    | .list xs => .ok xs
    | _ => .error (attestationError "Finality evidence attestations must be a list."))
  let (votes, equivocations) ← votesForBlock h attestations (.list (validators.map .str))
    expectedNetworkId height blockHash
  let short ← countBelow votes.length (r.get "required_quorum")
  require (equivocations = [] ∧ short = false)
    (attestationError "Finality evidence does not prove validator quorum.")
  require (Value.pyEqList (votes.map fun a => .dict a.toDict) attestations = true)
    (attestationError
      "Finality evidence attestations are not deterministically ordered and unique.")
  .ok record

end Finality

end ZoidbergChain
