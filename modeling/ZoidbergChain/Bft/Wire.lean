import ZoidbergChain.CanonicalV3.Primitives
import ZoidbergChain.Protocol
import ZoidbergChain.Python.Order
import ZoidbergChain.Python.Table

/-!
# The wire profile of the agreement protocol

isolated_bft717j/wire.py: ASCII JSON envelopes, signed envelopes, and the proofs that are
made of them.

- `envelope`, `signed`, `proof` check a byte string and read it.
- `Payload`, `SignedMessage`: what these byte strings say. `envelope_eq_ok` and
  `signed_eq_ok`: the accepted byte strings are their encodings, and each has one.
-/

namespace ZoidbergChain

open Python CanonicalV3

namespace Bft

/-! ## Constants -/

/-- `MAX_ROUND`. -/
def maxRound : Int := 2147483647

/-- `COMMON` without `validator_id`. -/
def commonFields : List String :=
  ["agreement_profile_digest", "block_height", "genesis_hash", "message_version", "parent_hash",
    "round", "validator_epoch", "validator_set_commitment"]

/-! ## ASCII JSON -/

/-- `ascii_tree`, for a text. -/
def asciiText (s : String) : Py Unit :=
  require (s.toList.all (fun c => 32 ≤ c.toNat && c.toNat ≤ 126) = true) (v3Error "ascii_string")

mutual

/-- `ascii_tree`. -/
def asciiTree : Value → Py Unit
  | .dict es => asciiEntries es
  | .list xs => asciiItems xs
  | .str s => asciiText s
  | _ => .ok ()

def asciiItems : List Value → Py Unit
  | [] => .ok ()
  | x :: xs => do
    asciiTree x
    asciiItems xs

def asciiEntries : List (String × Value) → Py Unit
  | [] => .ok ()
  | (k, v) :: es => do
    asciiText k
    asciiTree v
    asciiEntries es

end

/-- `J`. -/
def J (v : Value) : Py ByteArray := do
  asciiTree v
  canonical v

/-- `parse`. -/
def parse (raw : ByteArray) (limit : Nat) : Py Value := do
  let v ← CanonicalV3.parse raw limit
  let again ← J v
  require (again = raw) (v3Error "ascii_json")
  .ok v

/-! ## Contexts -/

/-- The cryptography that the repository takes from its libraries. -/
structure Crypto where
  /-- `hashlib.sha256(raw).hexdigest()`. -/
  sha256Hex : ByteArray → String
  /-- `eth_utils.keccak`. -/
  keccak : ByteArray → ByteArray
  /-- `keys.Signature(...).recover_public_key_from_msg_hash(...)`: the compressed key as hex
  digits, or nothing when it raises. -/
  recoverKey : List UInt8 → ByteArray → Option String

/-- `Context`: the properties of a context that has been constructed. The members are the
public keys of the manifest, each behind its identity. -/
structure Context where
  network : String
  genesisHash : String
  /-- `A`. -/
  profileDigest : String
  /-- `C`. -/
  setCommitment : String
  members : Table String String
  length_members : members.length = 4
  nodup_ids : members.keys.Nodup

/-- `Context.proposer`: a public key. -/
def Context.proposer (ctx : Context) (height round : Int) : String :=
  (ctx.members.values[(((height - 1) % 4 + round % 4) % 4).toNat]?).getD ""

/-! ## Envelopes -/

def envelopeFields : List String :=
  ["domain", "network_id", "object_type", "payload", "protocol", "protocol_version"]

/-- `type(value) is dict`. -/
def asObject (v : Value) (code : String) : Py Dict :=
  match v with
  | .dict d => .ok d
  | _ => .error (v3Error code)

/-- `left == right`, for a text on the right. -/
def isText (v : Value) (s : String) : Prop := v.pyEq (.str s) = true

instance (v : Value) (s : String) : Decidable (isText v s) := inferInstanceAs (Decidable (_ = _))

/-- `ctx.members[value]`, if there is one. -/
def Context.memberKey (ctx : Context) (v : Value) : Option String :=
  match v with
  | .str id => ctx.members.get? id
  | _ => none

/-- The checks of `envelope` on a payload, behind its schema. -/
def checkPayload (p : Dict) (proposal : Bool) (ctx : Context) : Py Unit := do
  let epoch ← uint (p.get "validator_epoch") 0 maxUint
  require (epoch = 0) (v3Error "epoch")
  let height ← uint (p.get "block_height") 1 maxUint
  let round ← uint (p.get "round") 0 maxRound
  let _ ← h64 (p.get "genesis_hash")
  let parent ← h64 (p.get "parent_hash")
  let _ ← h64 (p.get "agreement_profile_digest")
  let _ ← h64 (p.get "validator_set_commitment")
  let _ ← wallet (p.get "validator_id")
  let key ← orRaise (ctx.memberKey (p.get "validator_id")) (v3Error "not_member")
  require (height = 1 → parent = ctx.genesisHash) (v3Error "parent")
  let _ ← (if p.get "block_hash" = .null then .ok "" else h64 (p.get "block_hash"))
  if proposal then do
    require (p.get "block_hash" ≠ .null) (v3Error "nil_proposal")
    let _ ← uint (p.get "valid_round") (-1) (round - 1)
    require (key = ctx.proposer height round) (v3Error "proposer")
  else .ok ()

/-- `envelope`. -/
def envelope (raw : ByteArray) (ctx : Context) : Py Dict := do
  let v ← parse raw 2048
  let e ← closed v envelopeFields []
  let p ← asObject (e.get "payload") "purpose"
  require (["propose", "prevote", "precommit"].any fun s => (p.get "step").pyEq (.str s))
    (v3Error "purpose")
  let proposal := decide (isText (p.get "step") "propose")
  let p ← closed (.dict p) (commonFields ++ ["validator_id", "block_hash", "step"] ++
    if proposal then ["valid_round"] else []) []
  let kind := if proposal then "bft-proposal" else "bft-vote"
  require (isText (e.get "domain") ("zoidbergchain/" ++ kind ++ "/v1") ∧
    isText (e.get "object_type") kind) (v3Error "domain")
  require (isText (e.get "protocol") "zoidbergchain") (v3Error "version")
  let protocolVersion ← uint (e.get "protocol_version") 0 maxUint
  require (protocolVersion = 2) (v3Error "version")
  let messageVersion ← uint (p.get "message_version") 0 maxUint
  require (messageVersion = 1) (v3Error "version")
  require (isText (e.get "network_id") ctx.network ∧
    isText (p.get "genesis_hash") ctx.genesisHash ∧
    isText (p.get "agreement_profile_digest") ctx.profileDigest ∧
    isText (p.get "validator_set_commitment") ctx.setCommitment) (v3Error "context")
  checkPayload p proposal ctx
  .ok e

/-! ## Signatures -/

/-- `prefix`. -/
def messagePrefix (raw : ByteArray) : ByteArray :=
  encodeUtf8 (String.singleton (Char.ofNat 25) ++ "Ethereum Signed Message:\n" ++
    toString raw.size)

/-- `signing_digest`. -/
def signingDigest (crypto : Crypto) (raw : ByteArray) : ByteArray :=
  crypto.keccak (messagePrefix raw ++ raw)

/-- `sig[:64] + bytes([sig[64] - 27])`, for the text of a signature. -/
def recoverableSignature (s : String) : List UInt8 :=
  let sig := (readHex (s.toList.drop 2)).getD []
  sig.take 64 ++ (sig.drop 64).map (· - 27)

def signedFields : List String := ["envelope", "signature", "signature_scheme"]

/-- `signed`. -/
def signed (crypto : Crypto) (raw : ByteArray) (ctx : Context) : Py Dict := do
  let v ← parse raw 2304
  let s ← closed v signedFields []
  require (isText (s.get "signature_scheme") "personal_sign") (v3Error "signature_scheme")
  let m ← J (s.get "envelope")
  let e ← envelope m ctx
  let signature ← CanonicalV3.signature (s.get "signature")
  let recovered ← orRaise (crypto.recoverKey (recoverableSignature signature)
    (signingDigest crypto m)) (v3Error "signature_recovery")
  let p ← asObject (e.get "payload") "purpose"
  require (ctx.memberKey (p.get "validator_id") = some recovered) (v3Error "signature_key")
  .ok s

/-! ## Proofs -/

/-- `value[key]`, for an object. -/
def objectItem (v : Value) (key : String) : Py Dict := do
  let w ← v.item key
  w.asDict

/-- `e["payload"]` of a signed message. -/
def payloadOf (v : Value) : Py Dict := do
  let e ← v.item "envelope"
  objectItem e "payload"

/-- `commitment(v["envelope"])`. -/
def commitmentOf (v : Value) : Py Dict := do
  let p ← payloadOf v
  .ok (p.filter fun e => e.1 ≠ "validator_id")

/-- `v["envelope"]["payload"]["validator_id"]`, a text. -/
def validatorIdOf (v : Value) : Py String := do
  let p ← payloadOf v
  match ← p.index "validator_id" with
  | .str id => .ok id
  | _ => .error (.type "unhashable or unorderable identity")

/-- `signed(J(v), ctx)`. -/
def signedValue (crypto : Crypto) (ctx : Context) (v : Value) : Py Dict := do
  let raw ← J v
  signed crypto raw ctx

/-- `sorted(set(ids))`. -/
def sortedSet (ids : List String) : List String := ids.dedup.insertionSort (· ≤ ·)

/-- A proof: a quorum of prevotes, a commit, or the evidence of a round. -/
inductive ProofKind where
  | pv
  | q4
  | re
  deriving DecidableEq

/-- The size limit of a kind. -/
def ProofKind.limit : ProofKind → Nat
  | .pv => 12288
  | .q4 => 16384
  | .re => 8192

/-- What the fields of a certificate are called, and its version. -/
structure Shape where
  version : String
  votes : String
  number : Int
  step : String
  proposal : Bool

def pvShape : Shape := ⟨"certificate_version", "votes", 1, "prevote", false⟩

def q4Shape : Shape := ⟨"proof_version", "precommits", 4, "precommit", true⟩

/-- Entries without these keys. -/
def without (d : Dict) (keys : List String) : Dict := d.filter fun e => !keys.contains e.1

/-- The proposal of a commit: it is signed, and has the context of the commitment. -/
def checkProposal (crypto : Crypto) (ctx : Context) (proposal t : Value) : Py Unit := do
  let p ← signedValue crypto ctx proposal
  let payload ← payloadOf (.dict p)
  let blockHash ← t.item "block_hash"
  require (isText (payload.get "step") "propose" ∧ blockHash ≠ .null) (v3Error "proof_proposal")
  let pp ← commitmentOf (.dict p)
  let d ← t.asDict
  require ((Value.dict (without pp ["step", "valid_round"])).pyEq (.dict (without d ["step"])) =
    true) (v3Error "proof_proposal_context")

/-- Every vote has the commitment, for `==`. -/
def checkCommitments (t : Value) : List Value → Py Unit
  | [] => .ok ()
  | v :: votes => do
    let c ← commitmentOf v
    require ((Value.dict c).pyEq t = true) (v3Error "proof_commitment")
    checkCommitments t votes

/-- The votes are signed, by distinct validators in order. -/
def checkSigners (crypto : Crypto) (ctx : Context) (votes : List Value) : Py Unit := do
  let _ ← votes.mapM (signedValue crypto ctx)
  let ids ← votes.mapM validatorIdOf
  require (ids = sortedSet ids) (v3Error "proof_order")

/-- A list of at least `low` and at most `high` items. -/
def listBetween (v : Value) (low high : Nat) (code : String) : Py (List Value) :=
  match v with
  | .list xs => if low ≤ xs.length ∧ xs.length ≤ high then .ok xs else .error (v3Error code)
  | _ => .error (v3Error code)

/-- `proof`, for a certificate. -/
def certificate (crypto : Crypto) (ctx : Context) (shape : Shape) (v : Value) : Py Dict := do
  let obj ← closed v ([shape.version, "commitment", shape.votes] ++
    if shape.proposal then ["proposal"] else []) []
  let number ← uint (obj.get shape.version) 0 maxUint
  require (number = shape.number) (v3Error "proof_version")
  let votes ← listBetween (obj.get shape.votes) 3 4 "quorum_count"
  checkSigners crypto ctx votes
  let t := obj.get "commitment"
  checkCommitments t votes
  let step ← t.item "step"
  require (isText step shape.step) (v3Error "proof_step")
  (if shape.proposal then checkProposal crypto ctx (obj.get "proposal") t else .ok ())
  .ok obj

/-- The payload fields that two pieces of evidence share. -/
def contextOf (v : Value) : Py (List Value) := do
  let p ← payloadOf v
  commonFields.mapM p.index

/-- `proof`, for the evidence of a round. -/
def evidence (crypto : Crypto) (ctx : Context) (v : Value) : Py Dict := do
  let obj ← closed v ["evidence_version", "messages"] []
  let number ← uint (obj.get "evidence_version") 0 maxUint
  require (number = 1) (v3Error "evidence_version")
  let messages ← listBetween (obj.get "messages") 2 2 "evidence_count"
  checkSigners crypto ctx messages
  let contexts ← messages.mapM contextOf
  require (∀ a ∈ contexts, ∀ b ∈ contexts, Value.pyEqList a b = true) (v3Error "evidence_context")
  .ok obj

/-- `proof`. -/
def proof (crypto : Crypto) (raw : ByteArray) (ctx : Context) (kind : ProofKind) : Py Dict := do
  let v ← parse raw kind.limit
  match kind with
  | .pv => certificate crypto ctx pvShape v
  | .q4 => certificate crypto ctx q4Shape v
  | .re => evidence crypto ctx v

/-! ## Accepted byte strings -/

theorem parse_eq_ok {raw : ByteArray} {limit : Nat} {v : Value} :
    parse raw limit = .ok v ↔ raw.size ≤ limit ∧ Ordered v ∧ J v = .ok raw := by
  constructor
  · intro h
    obtain ⟨w, hw, h⟩ := bind_eq_ok.mp h
    obtain ⟨again, hagain, h⟩ := bind_eq_ok.mp h
    obtain ⟨⟨⟩, hsame, hout⟩ := bind_eq_ok.mp h
    cases hout
    obtain ⟨hsize, hordered, -⟩ := CanonicalV3.parse_eq_ok.mp hw
    exact ⟨hsize, hordered, require_eq_ok.mp hsame ▸ hagain⟩
  · rintro ⟨hsize, hordered, hJ⟩
    obtain ⟨⟨⟩, -, hcanonical⟩ := bind_eq_ok.mp hJ
    have hparse := CanonicalV3.parse_eq_ok.mpr ⟨hsize, hordered, hcanonical⟩
    simp only [parse, hparse, hJ, ok_bind, require_pos trivial]

/-! ## Payloads -/

/-- The purpose of a message; a proposal names its valid round. -/
inductive Step where
  | propose (validRound : Int)
  | prevote
  | precommit
  deriving DecidableEq

def Step.name : Step → String
  | .propose _ => "propose"
  | .prevote => "prevote"
  | .precommit => "precommit"

/-- What an envelope says in a context. -/
structure Payload where
  step : Step
  height : Int
  round : Int
  parentHash : String
  blockHash : Option String
  validatorId : String
  deriving DecidableEq

/-- The value of an optional text. -/
def optionText (s : Option String) : Value := (s.map Value.str).getD .null

/-- The payload up to its step, and what follows it. -/
def Payload.head (ctx : Context) (p : Payload) : Dict :=
  [("agreement_profile_digest", .str ctx.profileDigest), ("block_hash", optionText p.blockHash),
    ("block_height", .int p.height), ("genesis_hash", .str ctx.genesisHash),
    ("message_version", .int 1), ("parent_hash", .str p.parentHash), ("round", .int p.round),
    ("step", .str p.step.name)]

def Step.validRound : Step → Dict
  | .propose vr => [("valid_round", .int vr)]
  | _ => []

/-- `e["payload"]`. -/
def Payload.toDict (ctx : Context) (p : Payload) : Dict :=
  p.head ctx ++ p.step.validRound ++ [("validator_epoch", .int 0),
    ("validator_id", .str p.validatorId), ("validator_set_commitment", .str ctx.setCommitment)]

def Step.objectType : Step → String
  | .propose _ => "bft-proposal"
  | _ => "bft-vote"

/-- The envelope of a payload. -/
def Payload.envelope (ctx : Context) (p : Payload) : Dict :=
  [("domain", .str ("zoidbergchain/" ++ p.step.objectType ++ "/v1")),
    ("network_id", .str ctx.network), ("object_type", .str p.step.objectType),
    ("payload", .dict (p.toDict ctx)), ("protocol", .str "zoidbergchain"),
    ("protocol_version", .int 2)]

/-- `[0-9a-f]{64}`. -/
def isHash (s : String) : Prop := isHexAfter "" 64 s = true

/-- What the checks of `envelope` establish. -/
structure Payload.Valid (ctx : Context) (p : Payload) : Prop where
  height : 1 ≤ p.height ∧ p.height ≤ maxUint
  round : 0 ≤ p.round ∧ p.round ≤ maxRound
  context : isHash ctx.genesisHash ∧ isHash ctx.profileDigest ∧ isHash ctx.setCommitment
  parentHash : isHash p.parentHash
  parent : p.height = 1 → p.parentHash = ctx.genesisHash
  blockHash : ∀ b ∈ p.blockHash, isHash b
  validatorId : isHexAfter "0x" 40 p.validatorId = true
  member : (ctx.members.get? p.validatorId).isSome = true
  proposal : ∀ vr, p.step = .propose vr → p.blockHash ≠ none ∧ -1 ≤ vr ∧ vr ≤ p.round - 1 ∧
    ctx.members.get? p.validatorId = some (ctx.proposer p.height p.round)

theorem h64_eq_ok {v : Value} {s : String} : h64 v = .ok s ↔ v = .str s ∧ isHash s :=
  pattern_eq_ok

theorem isText_iff {v : Value} {s : String} : isText v s ↔ v = .str s := Value.pyEq_str

/-- The fields of a payload, in order. -/
def payloadFields (proposal : Bool) : List String :=
  ["agreement_profile_digest", "block_hash", "block_height", "genesis_hash", "message_version",
    "parent_hash", "round", "step"] ++ (if proposal then ["valid_round"] else []) ++
  ["validator_epoch", "validator_id", "validator_set_commitment"]

theorem payloadFields_sorted (proposal : Bool) : (payloadFields proposal).Pairwise (· < ·) := by
  cases proposal <;> decide +kernel

theorem mem_payloadFields (proposal : Bool) (k : String) : k ∈ payloadFields proposal ↔
    k ∈ commonFields ++ ["validator_id", "block_hash", "step"] ++
      if proposal then ["valid_round"] else [] := by
  refine List.Perm.mem_iff ?_
  cases proposal <;> decide +kernel

theorem memberKey_eq_some {ctx : Context} {v : Value} {key : String} :
    ctx.memberKey v = some key ↔ ∃ id, v = .str id ∧ ctx.members.get? id = some key := by
  cases v <;> simp [Context.memberKey]

/-- What the checks on the fields of a payload establish. -/
structure PayloadChecked (p : Dict) (proposal : Bool) (ctx : Context) (q : Payload)
    (validRound : Int) : Prop where
  epoch : p.get "validator_epoch" = .int 0
  height : p.get "block_height" = .int q.height ∧ 1 ≤ q.height ∧ q.height ≤ maxUint
  round : p.get "round" = .int q.round ∧ 0 ≤ q.round ∧ q.round ≤ maxRound
  genesisHash : ∃ s, p.get "genesis_hash" = .str s ∧ isHash s
  parentHash : p.get "parent_hash" = .str q.parentHash ∧ isHash q.parentHash
  profileDigest : ∃ s, p.get "agreement_profile_digest" = .str s ∧ isHash s
  setCommitment : ∃ s, p.get "validator_set_commitment" = .str s ∧ isHash s
  validatorId : p.get "validator_id" = .str q.validatorId ∧
    isHexAfter "0x" 40 q.validatorId = true
  member : ∃ key, ctx.members.get? q.validatorId = some key ∧
    (proposal = true → key = ctx.proposer q.height q.round)
  parent : q.height = 1 → q.parentHash = ctx.genesisHash
  blockHash : p.get "block_hash" = optionText q.blockHash ∧ ∀ b ∈ q.blockHash, isHash b
  proposal : proposal = true → q.blockHash ≠ none ∧
    p.get "valid_round" = .int validRound ∧ -1 ≤ validRound ∧ validRound ≤ q.round - 1

theorem checkPayload_eq_ok {p : Dict} {proposal : Bool} {ctx : Context}
    (h : checkPayload p proposal ctx = .ok ()) :
    ∃ (q : Payload) (vr : Int), ∀ step,
      PayloadChecked p proposal ctx { q with step := step } vr := by
  obtain ⟨epoch, hepoch, h⟩ := bind_eq_ok.mp h
  obtain ⟨⟨⟩, hzero, h⟩ := bind_eq_ok.mp h
  obtain ⟨height, hheight, h⟩ := bind_eq_ok.mp h
  obtain ⟨round, hround, h⟩ := bind_eq_ok.mp h
  obtain ⟨genesisHash, hgenesis, h⟩ := bind_eq_ok.mp h
  obtain ⟨parent, hparent, h⟩ := bind_eq_ok.mp h
  obtain ⟨profile, hprofile, h⟩ := bind_eq_ok.mp h
  obtain ⟨setCommitment, hset, h⟩ := bind_eq_ok.mp h
  obtain ⟨validator, hvalidator, h⟩ := bind_eq_ok.mp h
  obtain ⟨key, hkey, h⟩ := bind_eq_ok.mp h
  obtain ⟨⟨⟩, hfirst, h⟩ := bind_eq_ok.mp h
  obtain ⟨blockHash, hblock, hlast⟩ := bind_eq_ok.mp h
  obtain rfl := require_eq_ok.mp hzero
  obtain ⟨hid, hwallet⟩ := wallet_eq_ok.mp hvalidator
  have hmember : ctx.members.get? validator = some key := by
    have hkey := orRaise_eq_ok.mp hkey
    rwa [hid] at hkey
  have hoption : ∃ b : Option String, p.get "block_hash" = optionText b ∧
      ∀ s ∈ b, isHash s := by
    split at hblock
    · next hnull => exact ⟨none, hnull, nofun⟩
    · obtain ⟨hstr, hhash⟩ := h64_eq_ok.mp hblock
      refine ⟨some blockHash, hstr, fun s hs => ?_⟩
      rwa [← Option.some.inj hs]
  obtain ⟨b, hb, hbhash⟩ := hoption
  have hproposal : proposal = true → ∃ vr, b ≠ none ∧ p.get "valid_round" = .int vr ∧
      -1 ≤ vr ∧ vr ≤ round - 1 ∧ key = ctx.proposer height round := by
    rintro rfl
    rw [if_pos rfl] at hlast
    obtain ⟨⟨⟩, hnil, hlast⟩ := bind_eq_ok.mp hlast
    obtain ⟨vr, hvr, hproposer⟩ := bind_eq_ok.mp hlast
    refine ⟨vr, ?_, (uint_eq_ok.mp hvr).1, (uint_eq_ok.mp hvr).2.1, (uint_eq_ok.mp hvr).2.2,
      require_eq_ok.mp hproposer⟩
    rintro rfl
    exact require_eq_ok.mp hnil hb
  obtain ⟨vr, hvr⟩ : ∃ vr, proposal = true → b ≠ none ∧ p.get "valid_round" = .int vr ∧
      -1 ≤ vr ∧ vr ≤ round - 1 ∧ key = ctx.proposer height round := by
    cases proposal with
    | false => exact ⟨0, nofun⟩
    | true =>
      obtain ⟨vr, hvr⟩ := hproposal rfl
      exact ⟨vr, fun _ => hvr⟩
  refine ⟨⟨.prevote, height, round, parent, b, validator⟩, vr, fun step => ?_⟩
  exact {
    epoch := (uint_eq_ok.mp hepoch).1
    height := uint_eq_ok.mp hheight
    round := uint_eq_ok.mp hround
    genesisHash := ⟨_, h64_eq_ok.mp hgenesis⟩
    parentHash := h64_eq_ok.mp hparent
    profileDigest := ⟨_, h64_eq_ok.mp hprofile⟩
    setCommitment := ⟨_, h64_eq_ok.mp hset⟩
    validatorId := ⟨hid, hwallet⟩
    member := ⟨key, hmember, fun hp => (hvr hp).2.2.2.2⟩
    parent := require_eq_ok.mp hfirst
    blockHash := ⟨hb, hbhash⟩
    proposal := fun hp => ⟨(hvr hp).1, (hvr hp).2.1, (hvr hp).2.2.1, (hvr hp).2.2.2.1⟩ }

/-- The three purposes, by their text. -/
theorem step_of_any {v : Value}
    (h : (["propose", "prevote", "precommit"].any fun s => v.pyEq (.str s)) = true) (vr : Int) :
    ∃ step : Step, v = .str step.name ∧
      (decide (isText v "propose") = true → step = .propose vr) ∧
      (decide (isText v "propose") = false → step.validRound = []) := by
  obtain ⟨s, hs, hv⟩ := List.any_eq_true.mp h
  obtain rfl := Value.pyEq_str.mp hv
  have hpropose : ∀ t : String, decide (isText (.str t) "propose") = decide (t = "propose") := by
    intro t
    rw [decide_eq_decide, isText_iff, Value.str.injEq]
  rw [hpropose]
  simp only [List.mem_cons, List.not_mem_nil, or_false] at hs
  obtain rfl | rfl | rfl := hs
  · exact ⟨.propose vr, rfl, fun _ => rfl, fun hne => absurd rfl (of_decide_eq_false hne)⟩
  · exact ⟨.prevote, rfl, fun heq => absurd (of_decide_eq_true heq) (by decide), fun _ => rfl⟩
  · exact ⟨.precommit, rfl, fun heq => absurd (of_decide_eq_true heq) (by decide), fun _ => rfl⟩

theorem asObject_eq_ok {v : Value} {code : String} {d : Dict} (h : asObject v code = .ok d) :
    v = .dict d := by
  cases v <;> cases h
  rfl

/-- What an accepted envelope says. -/
theorem envelope_payload {raw : ByteArray} {ctx : Context} {e : Dict}
    (h : envelope raw ctx = .ok e) : ∃ p : Payload, p.Valid ctx ∧ e = p.envelope ctx ∧
      J (.dict e) = .ok raw ∧ raw.size ≤ 2048 := by
  obtain ⟨v, hv, h⟩ := bind_eq_ok.mp h
  obtain ⟨d, hd, h⟩ := bind_eq_ok.mp h
  obtain ⟨p, hp, h⟩ := bind_eq_ok.mp h
  obtain ⟨⟨⟩, hany, h⟩ := bind_eq_ok.mp h
  obtain ⟨p', hp', h⟩ := bind_eq_ok.mp h
  obtain ⟨⟨⟩, hdomain, h⟩ := bind_eq_ok.mp h
  obtain ⟨⟨⟩, hprotocol, h⟩ := bind_eq_ok.mp h
  obtain ⟨protocolVersion, hversion, h⟩ := bind_eq_ok.mp h
  obtain ⟨⟨⟩, htwo, h⟩ := bind_eq_ok.mp h
  obtain ⟨messageVersion, hmessage, h⟩ := bind_eq_ok.mp h
  obtain ⟨⟨⟩, hone, h⟩ := bind_eq_ok.mp h
  obtain ⟨⟨⟩, hcontext, h⟩ := bind_eq_ok.mp h
  obtain ⟨⟨⟩, hchecked, hout⟩ := bind_eq_ok.mp h
  cases hout
  obtain rfl := closed_eq_ok hd
  have hpayload := asObject_eq_ok hp
  obtain ⟨hsize, hordered, hJ⟩ := parse_eq_ok.mp hv
  obtain rfl := require_eq_ok.mp htwo
  obtain rfl := require_eq_ok.mp hone
  obtain ⟨hnetwork, hgenesis, hprofile, hset⟩ := require_eq_ok.mp hcontext
  have hporder : Ordered (.dict p) := hpayload ▸ ordered_get hordered
  obtain ⟨-, hentries⟩ := eq_of_closed (l := envelopeFields) hordered.1 hd
    (by decide +kernel) fun _ => Iff.rfl
  obtain ⟨hsame, hpentries⟩ := eq_of_closed hporder.1 hp' (payloadFields_sorted _)
    (mem_payloadFields _)
  obtain rfl := hsame.symm
  obtain ⟨q, vr, hq⟩ := checkPayload_eq_ok hchecked
  obtain ⟨step, hstep, hpropose, hvote⟩ := step_of_any (require_eq_ok.mp hany) vr
  have hfields := hq step
  have htext : ∀ {k s : String}, isText (p.get k) s → p.get k = .str s := isText_iff.mp
  have hprofile := htext hprofile
  have hset := htext hset
  have hgenesis := htext hgenesis
  have hmessage := (uint_eq_ok.mp hmessage).1
  have hversion := (uint_eq_ok.mp hversion).1
  obtain ⟨hdomain, hobject⟩ := require_eq_ok.mp hdomain
  generalize decide (isText (p.get "step") "propose") = proposal at *
  have htoDict : p = Payload.toDict ctx { q with step := step } := by
    rw [hpentries]
    cases proposal with
    | true =>
      obtain rfl := hpropose rfl
      simp only [payloadFields, List.map_append, List.map_cons, List.map_nil, if_true,
        hprofile, hfields.blockHash.1, hfields.height.1, hgenesis, hmessage, hfields.parentHash.1,
        hfields.round.1, hstep, (hfields.proposal rfl).2.1, hfields.epoch, hfields.validatorId.1,
        hset, Payload.toDict, Payload.head, Step.validRound]
    | false =>
      simp only [payloadFields, List.map_append, List.map_cons, List.map_nil, Bool.false_eq_true,
        if_false, hprofile, hfields.blockHash.1, hfields.height.1, hgenesis, hmessage,
        hfields.parentHash.1, hfields.round.1, hstep, hvote rfl, hfields.epoch,
        hfields.validatorId.1, hset, Payload.toDict, Payload.head]
  have htype : (if proposal = true then "bft-proposal" else "bft-vote") = step.objectType := by
    cases proposal with
    | true =>
      obtain rfl := hpropose rfl
      rfl
    | false =>
      have hnone := hvote rfl
      cases step with
      | propose vr => cases hnone
      | prevote => rfl
      | precommit => rfl
  rw [htype] at hdomain hobject
  refine ⟨{ q with step := step }, ?_, ?_, hJ, hsize⟩
  · have hhash : ∀ {k s : String}, p.get k = .str s → (∃ t, p.get k = .str t ∧ isHash t) →
        isHash s := by
      rintro k s hs ⟨t, ht, hhash⟩
      rwa [Value.str.inj (hs.symm.trans ht)]
    obtain ⟨key, hkey, hproposer⟩ := hfields.member
    exact {
      height := hfields.height.2
      round := hfields.round.2
      context := ⟨hhash hgenesis hfields.genesisHash, hhash hprofile hfields.profileDigest,
        hhash hset hfields.setCommitment⟩
      parentHash := hfields.parentHash.2
      parent := hfields.parent
      blockHash := hfields.blockHash.2
      validatorId := hfields.validatorId.2
      member := by rw [hkey]; rfl
      proposal := by
        rintro vr' hvr'
        cases proposal with
        | false =>
          have hnone := hvote rfl
          rw [show step = .propose vr' from hvr'] at hnone
          cases hnone
        | true =>
          obtain ⟨hblock, -, hrange⟩ := hfields.proposal rfl
          obtain rfl : vr = vr' := Step.propose.inj ((hpropose rfl).symm.trans hvr')
          exact ⟨hblock, hrange.1, hrange.2, hproposer rfl ▸ hkey⟩ }
  · rw [hentries]
    simp only [envelopeFields, List.map_cons, List.map_nil, isText_iff.mp hdomain,
      isText_iff.mp hnetwork, isText_iff.mp hobject, hpayload, isText_iff.mp (require_eq_ok.mp
      hprotocol), hversion, Payload.envelope, ← htoDict]

/-- A proposal, which names its valid round. -/
def Step.isPropose : Step → Bool
  | .propose _ => true
  | _ => false

theorem keys_toDict (ctx : Context) (p : Payload) :
    (p.toDict ctx).map Prod.fst = payloadFields p.step.isPropose := by
  cases hp : p.step <;>
    simp [Payload.toDict, Payload.head, Step.validRound, payloadFields, hp, Step.isPropose]

theorem ordered_optionText (s : Option String) : Ordered (optionText s) := by
  cases s <;> trivial

theorem ordered_toDict (ctx : Context) (p : Payload) : Ordered (.dict (p.toDict ctx)) := by
  constructor
  · show ((p.toDict ctx).map Prod.fst).Pairwise (· < ·)
    rw [keys_toDict]
    exact payloadFields_sorted _
  · have hround : Json.ObjectsEntries (fun d => (d.map Prod.fst).Pairwise (· < ·))
        p.step.validRound := by
      cases p.step <;> simp [Step.validRound, Json.ObjectsEntries, Json.Objects]
    have hblock := ordered_optionText p.blockHash
    rw [objectsEntries_iff] at hround ⊢
    intro e he
    simp only [Payload.toDict, Payload.head, List.mem_append, List.mem_cons, List.not_mem_nil,
      or_false] at he
    rcases he with ((rfl | rfl | rfl | rfl | rfl | rfl | rfl | rfl) | he) | (rfl | rfl | rfl)
    all_goals first | exact hround e he | exact hblock | trivial

theorem ordered_envelope (ctx : Context) (p : Payload) : Ordered (.dict (p.envelope ctx)) :=
  ⟨show envelopeFields.Pairwise (· < ·) by decide +kernel, trivial, trivial, trivial,
    ordered_toDict ctx p, trivial, trivial, trivial⟩

theorem closed_of_keys {d : Dict} {fields : List String}
    (h : ∀ k, k ∈ d.map Prod.fst ↔ k ∈ fields) : closed (.dict d) fields [] = .ok d := by
  have hkeys : fields.all (Dict.keys d).contains = true ∧
      (Dict.keys d).all (fields ++ []).contains = true := by
    simp only [List.all_eq_true, List.contains_iff_mem, List.append_nil]
    exact ⟨fun k hk => (h k).mpr hk, fun k hk => (h k).mp hk⟩
  rw [closed, require_pos hkeys, ok_bind]

theorem isText_str (s : String) : isText (.str s) s := isText_iff.mpr rfl

/-- The fields of a payload. -/
theorem get_toDict (ctx : Context) (p : Payload) :
    (p.toDict ctx).get "validator_epoch" = .int 0 ∧
      (p.toDict ctx).get "block_height" = .int p.height ∧
      (p.toDict ctx).get "round" = .int p.round ∧
      (p.toDict ctx).get "genesis_hash" = .str ctx.genesisHash ∧
      (p.toDict ctx).get "parent_hash" = .str p.parentHash ∧
      (p.toDict ctx).get "agreement_profile_digest" = .str ctx.profileDigest ∧
      (p.toDict ctx).get "validator_set_commitment" = .str ctx.setCommitment ∧
      (p.toDict ctx).get "validator_id" = .str p.validatorId ∧
      (p.toDict ctx).get "block_hash" = optionText p.blockHash ∧
      (p.toDict ctx).get "step" = .str p.step.name ∧
      (p.toDict ctx).get "message_version" = .int 1 := by
  cases hs : p.step <;>
    simp [Payload.toDict, Payload.head, Step.validRound, hs, Dict.get, Dict.get?_cons]

theorem get_envelope (ctx : Context) (p : Payload) :
    (p.envelope ctx).get "domain" = .str ("zoidbergchain/" ++ p.step.objectType ++ "/v1") ∧
      (p.envelope ctx).get "object_type" = .str p.step.objectType ∧
      (p.envelope ctx).get "protocol" = .str "zoidbergchain" ∧
      (p.envelope ctx).get "protocol_version" = .int 2 ∧
      (p.envelope ctx).get "network_id" = .str ctx.network ∧
      (p.envelope ctx).get "payload" = .dict (p.toDict ctx) := by
  simp [Payload.envelope, Dict.get, Dict.get?_cons]

theorem checkPayload_of_valid {ctx : Context} {p : Payload} (hp : p.Valid ctx) :
    checkPayload (p.toDict ctx) p.step.isPropose ctx = .ok () := by
  obtain ⟨hepoch, hheight, hround, hgenesis, hparent, hprofile, hset, hid, hblock, -, -⟩ :=
    get_toDict ctx p
  obtain ⟨key, hkey⟩ := Option.isSome_iff_exists.mp hp.member
  obtain ⟨hg, ha, hc⟩ := hp.context
  rw [checkPayload, hepoch, uint_eq_ok.mpr ⟨rfl, by decide⟩, ok_bind, require_pos rfl, ok_bind,
    hheight, uint_eq_ok.mpr ⟨rfl, hp.height⟩, ok_bind, hround, uint_eq_ok.mpr ⟨rfl, hp.round⟩,
    ok_bind, hgenesis, h64_eq_ok.mpr ⟨rfl, hg⟩, ok_bind, hparent,
    h64_eq_ok.mpr ⟨rfl, hp.parentHash⟩, ok_bind, hprofile, h64_eq_ok.mpr ⟨rfl, ha⟩, ok_bind,
    hset, h64_eq_ok.mpr ⟨rfl, hc⟩, ok_bind, hid, wallet_eq_ok.mpr ⟨rfl, hp.validatorId⟩, ok_bind,
    orRaise_eq_ok.mpr (memberKey_eq_some.mpr ⟨_, rfl, hkey⟩), ok_bind, require_pos hp.parent,
    ok_bind]
  have hhash : ∃ b, (if (p.toDict ctx).get "block_hash" = .null then .ok ""
      else h64 ((p.toDict ctx).get "block_hash")) = .ok b := by
    rw [hblock]
    cases hb : p.blockHash with
    | none => exact ⟨"", if_pos rfl⟩
    | some b => exact ⟨b, (if_neg nofun).trans (h64_eq_ok.mpr ⟨rfl, hp.blockHash b hb⟩)⟩
  obtain ⟨b, hb⟩ := hhash
  rw [hb, ok_bind]
  cases hs : p.step with
  | propose vr =>
    obtain ⟨hsome, hlow, hhigh, hproposer⟩ := hp.proposal vr hs
    have hne : (p.toDict ctx).get "block_hash" ≠ .null := by
      rw [hblock]
      cases hblock : p.blockHash with
      | none => exact absurd hblock hsome
      | some b => nofun
    have hvr : (p.toDict ctx).get "valid_round" = .int vr := by
      simp [Payload.toDict, Payload.head, Step.validRound, hs, Dict.get, Dict.get?_cons]
    obtain rfl := Option.some.inj (hkey.symm.trans hproposer)
    rw [Step.isPropose, if_pos rfl, require_pos hne, ok_bind, hvr,
      uint_eq_ok.mpr ⟨rfl, hlow, hhigh⟩, ok_bind, require_pos rfl]
  | _ => rfl

/-- The accepted byte strings are the encodings of valid payloads. -/
theorem envelope_eq_ok {raw : ByteArray} {ctx : Context} {e : Dict} :
    envelope raw ctx = .ok e ↔ ∃ p : Payload, p.Valid ctx ∧ e = p.envelope ctx ∧
      J (.dict e) = .ok raw ∧ raw.size ≤ 2048 := by
  constructor
  · exact envelope_payload
  · rintro ⟨p, hp, rfl, hJ, hsize⟩
    obtain ⟨-, -, -, hgenesis, -, hprofile, hset, -, -, hstep, hversion⟩ := get_toDict ctx p
    obtain ⟨hdomain, hobject, hprotocol, htwo, hnetwork, hpayload⟩ := get_envelope ctx p
    have hparse := parse_eq_ok.mpr ⟨hsize, ordered_envelope ctx p, hJ⟩
    have hclosed : closed (.dict (p.envelope ctx)) envelopeFields [] = .ok (p.envelope ctx) :=
      closed_of_keys fun k => Iff.rfl
    have hpropose : decide (isText (.str p.step.name) "propose") = p.step.isPropose := by
      cases p.step <;> simp [isText_iff, Step.name, Step.isPropose]
    have hkeys : closed (.dict (p.toDict ctx)) (commonFields ++
        ["validator_id", "block_hash", "step"] ++
          if p.step.isPropose then ["valid_round"] else []) [] = .ok (p.toDict ctx) := by
      refine closed_of_keys fun k => ?_
      rw [keys_toDict]
      exact mem_payloadFields _ k
    have hany : (["propose", "prevote", "precommit"].any fun s =>
        (Value.str p.step.name).pyEq (.str s)) = true := by
      cases p.step <;> simp [Value.pyEq_str, Step.name]
    have htype : (if p.step.isPropose then "bft-proposal" else "bft-vote") =
        p.step.objectType := by
      cases p.step <;> rfl
    rw [envelope, hparse, ok_bind, hclosed, ok_bind, hpayload, asObject, ok_bind, hstep,
      require_pos hany, ok_bind]
    simp only [hpropose, hkeys, ok_bind, htype, hdomain, hobject, hprotocol, htwo, hnetwork]
    rw [require_pos ⟨isText_str _, isText_str _⟩, ok_bind, require_pos (isText_str _), ok_bind,
      uint_eq_ok.mpr ⟨rfl, by decide⟩, ok_bind, require_pos rfl, ok_bind, hversion,
      uint_eq_ok.mpr ⟨rfl, by decide⟩, ok_bind, require_pos rfl, ok_bind, hgenesis, hprofile, hset,
      require_pos ⟨isText_str _, isText_str _, isText_str _, isText_str _⟩, ok_bind,
      checkPayload_of_valid hp, ok_bind]

/-- Two values are not written alike. -/
theorem J_inj {v w : Value} {raw : ByteArray} (hv : Ordered v) (hw : Ordered w)
    (h : J v = .ok raw) (h' : J w = .ok raw) : v = w := by
  have hparse := parse_eq_ok.mpr ⟨le_refl raw.size, hv, h⟩
  exact Except.ok.inj (hparse.symm.trans (parse_eq_ok.mpr ⟨le_refl raw.size, hw, h'⟩))

/-! ## Signed messages -/

/-- What a signed envelope says. -/
structure SignedMessage where
  payload : Payload
  signature : String
  deriving DecidableEq

def SignedMessage.toDict (ctx : Context) (m : SignedMessage) : Dict :=
  [("envelope", .dict (m.payload.envelope ctx)), ("signature", .str m.signature),
    ("signature_scheme", .str "personal_sign")]

/-- What the checks of `signed` establish. -/
structure SignedMessage.Valid (crypto : Crypto) (ctx : Context) (m : SignedMessage) : Prop where
  payload : m.payload.Valid ctx
  grammar : CanonicalV3.signature (.str m.signature) = .ok m.signature
  recovered : ∃ raw, J (.dict (m.payload.envelope ctx)) = .ok raw ∧ raw.size ≤ 2048 ∧
    crypto.recoverKey (recoverableSignature m.signature) (signingDigest crypto raw) =
      ctx.members.get? m.payload.validatorId

theorem signature_eq_ok {v : Value} {s : String} (h : CanonicalV3.signature v = .ok s) :
    v = .str s := by
  obtain ⟨t, ht, h⟩ := bind_eq_ok.mp h
  obtain ⟨⟨⟩, -, hout⟩ := bind_eq_ok.mp h
  cases hout
  exact (pattern_eq_ok.mp ht).1

theorem ordered_signed (ctx : Context) (m : SignedMessage) : Ordered (.dict (m.toDict ctx)) :=
  ⟨show signedFields.Pairwise (· < ·) by decide +kernel, ordered_envelope ctx m.payload, trivial,
    trivial, trivial⟩

theorem get_signed (ctx : Context) (m : SignedMessage) :
    (m.toDict ctx).get "envelope" = .dict (m.payload.envelope ctx) ∧
      (m.toDict ctx).get "signature" = .str m.signature ∧
      (m.toDict ctx).get "signature_scheme" = .str "personal_sign" := by
  simp [SignedMessage.toDict, Dict.get, Dict.get?_cons]

/-- The accepted byte strings are the encodings of valid signed messages. -/
theorem signed_eq_ok {crypto : Crypto} {raw : ByteArray} {ctx : Context} {s : Dict} :
    signed crypto raw ctx = .ok s ↔ ∃ m : SignedMessage, m.Valid crypto ctx ∧ s = m.toDict ctx ∧
      J (.dict s) = .ok raw ∧ raw.size ≤ 2304 := by
  constructor
  · intro h
    obtain ⟨v, hv, h⟩ := bind_eq_ok.mp h
    obtain ⟨d, hd, h⟩ := bind_eq_ok.mp h
    obtain ⟨⟨⟩, hscheme, h⟩ := bind_eq_ok.mp h
    obtain ⟨envelopeRaw, hraw, h⟩ := bind_eq_ok.mp h
    obtain ⟨e, he, h⟩ := bind_eq_ok.mp h
    obtain ⟨signature, hsignature, h⟩ := bind_eq_ok.mp h
    obtain ⟨key, hkey, h⟩ := bind_eq_ok.mp h
    obtain ⟨q, hq, h⟩ := bind_eq_ok.mp h
    obtain ⟨⟨⟩, hmember, hout⟩ := bind_eq_ok.mp h
    cases hout
    obtain rfl := closed_eq_ok hd
    obtain ⟨hsize, hordered, hJ⟩ := parse_eq_ok.mp hv
    obtain ⟨p, hp, rfl, hJe, hsizee⟩ := envelope_eq_ok.mp he
    obtain ⟨-, hentries⟩ := eq_of_closed (l := signedFields) hordered.1 hd
      (by decide +kernel) fun _ => Iff.rfl
    have hvalue : s.get "envelope" = .dict (p.envelope ctx) :=
      J_inj (ordered_get hordered) (ordered_envelope ctx p) hraw hJe
    have hsignature' := signature_eq_ok hsignature
    obtain rfl : q = p.toDict ctx := by
      have heq := asObject_eq_ok hq
      rw [(get_envelope ctx p).2.2.2.2.2] at heq
      exact (Value.dict.inj heq).symm
    obtain ⟨-, -, -, -, -, -, -, hid, -, -, -⟩ := get_toDict ctx p
    refine ⟨⟨p, signature⟩, ⟨hp, hsignature' ▸ hsignature, envelopeRaw, hJe, hsizee, ?_⟩, ?_, hJ,
      hsize⟩
    · have hmember := require_eq_ok.mp hmember
      rw [hid] at hmember
      rw [orRaise_eq_ok.mp hkey, ← hmember]
      rfl
    · rw [hentries]
      simp only [signedFields, List.map_cons, List.map_nil, hvalue, hsignature',
        isText_iff.mp (require_eq_ok.mp hscheme), SignedMessage.toDict]
  · rintro ⟨m, hm, rfl, hJ, hsize⟩
    obtain ⟨raw', hJ', hsize', hrecovered⟩ := hm.recovered
    obtain ⟨henvelope, hsignature, hscheme⟩ := get_signed ctx m
    obtain ⟨key, hkey⟩ := Option.isSome_iff_exists.mp hm.payload.member
    have hclosed : closed (.dict (m.toDict ctx)) signedFields [] = .ok (m.toDict ctx) :=
      closed_of_keys fun k => Iff.rfl
    obtain ⟨-, -, -, -, -, -, -, hid, -, -, -⟩ := get_toDict ctx m.payload
    have hmember : ctx.memberKey (.str m.payload.validatorId) = some key :=
      memberKey_eq_some.mpr ⟨_, rfl, hkey⟩
    rw [signed, parse_eq_ok.mpr ⟨hsize, ordered_signed ctx m, hJ⟩, ok_bind, hclosed, ok_bind,
      hscheme, require_pos (isText_str _), ok_bind, henvelope, hJ', ok_bind,
      envelope_eq_ok.mpr ⟨m.payload, hm.payload, rfl, hJ', hsize'⟩, ok_bind, hsignature,
      hm.grammar, ok_bind, hrecovered, orRaise_eq_ok.mpr hkey, ok_bind,
      (get_envelope ctx m.payload).2.2.2.2.2, asObject, ok_bind, hid, require_pos hmember, ok_bind]

/-- A signed message that `signed` reads. -/
def SignedMessage.Signed (crypto : Crypto) (ctx : Context) (m : SignedMessage) : Prop :=
  m.Valid crypto ctx ∧ ∃ raw, J (.dict (m.toDict ctx)) = .ok raw ∧ raw.size ≤ 2304

theorem signedValue_eq_ok {crypto : Crypto} {ctx : Context} {v : Value} {s : Dict}
    (hv : Ordered v) : signedValue crypto ctx v = .ok s ↔
      v = .dict s ∧ ∃ m : SignedMessage, m.Signed crypto ctx ∧ s = m.toDict ctx := by
  constructor
  · intro h
    obtain ⟨raw, hraw, h⟩ := bind_eq_ok.mp h
    obtain ⟨m, hm, rfl, hJ, hsize⟩ := signed_eq_ok.mp h
    have heq := J_inj hv (ordered_signed ctx m) hraw hJ
    exact ⟨heq, m, ⟨hm, raw, hJ, hsize⟩, rfl⟩
  · rintro ⟨rfl, m, ⟨hm, raw, hJ, hsize⟩, rfl⟩
    rw [signedValue, hJ, ok_bind]
    exact signed_eq_ok.mpr ⟨m, hm, rfl, hJ, hsize⟩

/-- `commitment`: the payload without the validator. -/
def Payload.commitment (ctx : Context) (p : Payload) : Dict :=
  p.head ctx ++ p.step.validRound ++
    [("validator_epoch", .int 0), ("validator_set_commitment", .str ctx.setCommitment)]

theorem payloadOf_toDict (ctx : Context) (m : SignedMessage) :
    payloadOf (.dict (m.toDict ctx)) = .ok (m.payload.toDict ctx) := by
  simp [payloadOf, objectItem, Value.item, Dict.index, SignedMessage.toDict, Payload.envelope,
    Dict.get?_cons, Value.asDict]

theorem commitmentOf_toDict (ctx : Context) (m : SignedMessage) :
    commitmentOf (.dict (m.toDict ctx)) = .ok (m.payload.commitment ctx) := by
  rw [commitmentOf, payloadOf_toDict, ok_bind]
  cases hs : m.payload.step <;>
    simp [Payload.toDict, Payload.commitment, Payload.head, Step.validRound, hs]

theorem validatorIdOf_toDict (ctx : Context) (m : SignedMessage) :
    validatorIdOf (.dict (m.toDict ctx)) = .ok m.payload.validatorId := by
  rw [validatorIdOf, payloadOf_toDict, ok_bind]
  cases hs : m.payload.step <;>
    simp [Payload.toDict, Payload.head, Step.validRound, hs, Dict.index, Dict.get?_cons]

end Bft

end ZoidbergChain
