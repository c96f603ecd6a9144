import ZoidbergChain.Bft.Encoding

/-!
# Quorum certificates, verified twice

isolated_bft717k/verifier.py reads the certificates of isolated_bft717j/wire.py again, with
checks of its own.

- `verifyQuorum`: `verify_quorum`, with the work that it counts.
- `Certified`: the votes and the proposal of an object certify a commitment.
- `certificate_eq_ok`: `proof` asks that the stated commitment equals the certified one.
  `verifier_eq_ok`: `verify_quorum` asks that it is the certified one.
- `agree_iff_statesNumbers`: between the two stand the commitments with `true` in the place of
  1 and `false` in the place of 0.
-/

namespace ZoidbergChain

open Python CanonicalV3

namespace Bft

namespace Verifier

/-! ## Outcomes -/

/-- `Outcome`, as far as `verify_quorum` gives it. -/
inductive Outcome where
  | wrongContext
  | invalidProof
  | insufficientQuorum
  | incompleteData
  | validQuorum
  deriving DecidableEq

/-- `_Work`. -/
structure Work where
  checks : Nat := 0
  distinct : Nat := 0

/-- What ends a verification early: an exception, or `_Partial` with one of two outcomes. -/
inductive Stop where
  | raised (e : PyError)
  | incompleteData (detail : String)
  | insufficientQuorum (detail : String)

/-- A verification that counts its work. -/
abbrev Audit := ExceptT Stop (StateM Work)

/-- A step that counts nothing. -/
def Audit.ofPy {α : Type} (x : Py α) : Audit α := fun work =>
  match x with
  | .ok a => (.ok a, work)
  | .error e => (.error (.raised e), work)

/-- `raise _Partial`. -/
def Audit.stop (s : Stop) : Audit Unit := fun work => (.error s, work)

def Audit.count (f : Work → Work) : Audit Unit := fun work => (.ok (), f work)

/-- `Verification`, without the guarantees that are never given. -/
structure Verification where
  outcome : Outcome
  detail : String
  fixtureMembershipAuthenticated : Bool := false
  signaturesValid : Bool := false
  quorumStructureValid : Bool := false
  signatureChecks : Nat := 0
  distinctSigners : Nat := 0
  proofId : Option String := none

/-! ## Checks -/

variable (crypto : Crypto) (ctx : Context)

/-- `_authenticate`. -/
def authenticate (raw : ByteArray) : Audit Dict := do
  Audit.count fun work => { work with checks := work.checks + 1 }
  Audit.ofPy (signed crypto raw ctx)

/-- `T_FIELDS`. -/
def commitmentFields : List String := commonFields ++ ["block_hash", "step"]

/-- `_commitment`. -/
def commitment (t : Value) (shape : Shape) : Py Unit := do
  let t ← closed t commitmentFields []
  require (isText (t.get "step") shape.step) (v3Error "proof_step")
  let messageVersion ← uint (t.get "message_version") 0 maxUint
  require (messageVersion = 1) (v3Error "version_or_epoch")
  let epoch ← uint (t.get "validator_epoch") 0 maxUint
  require (epoch = 0) (v3Error "version_or_epoch")
  let height ← uint (t.get "block_height") 1 maxUint
  let _ ← uint (t.get "round") 0 maxRound
  let _ ← h64 (t.get "genesis_hash")
  let _ ← h64 (t.get "parent_hash")
  let _ ← h64 (t.get "agreement_profile_digest")
  let _ ← h64 (t.get "validator_set_commitment")
  require (isText (t.get "genesis_hash") ctx.genesisHash ∧
    isText (t.get "agreement_profile_digest") ctx.profileDigest ∧
    isText (t.get "validator_set_commitment") ctx.setCommitment) (v3Error "proof_context")
  require (height = 1 → isText (t.get "parent_hash") ctx.genesisHash) (v3Error "parent")
  let _ ← (if t.get "block_hash" = .null then .ok "" else h64 (t.get "block_hash"))
  require (shape.proposal = true → t.get "block_hash" ≠ .null) (v3Error "nil_commit_proof")

/-- The loop over the votes. `seen` has the identities in the order of `ids`, each with its
envelope. -/
def checkVotes (t : Value) (seen : List (String × ByteArray)) :
    List Value → Audit (List String)
  | [] => pure (seen.map Prod.fst)
  | v :: votes => do
    let raw ← Audit.ofPy (J v)
    let s ← authenticate crypto ctx raw
    let id ← Audit.ofPy (validatorIdOf (.dict s))
    let e ← Audit.ofPy (J (s.get "envelope"))
    match seen.lookup id with
    | some first => do
      Audit.ofPy (require (e = first) (v3Error "contradictory_votes_same_identity"))
      Audit.ofPy (.error (v3Error "duplicate_signer"))
    | none => do
      Audit.count fun work => { work with distinct := seen.length + 1 }
      let c ← Audit.ofPy (commitmentOf (.dict s))
      Audit.ofPy (require ((Value.dict c).pyEq t = true) (v3Error "proof_commitment"))
      checkVotes t (seen ++ [(id, e)]) votes

/-- The context of a proposal that has been authenticated. -/
def checkContext (p : Dict) (t : Value) : Py Unit := do
  let payload ← payloadOf (.dict p)
  require (isText (payload.get "step") "propose") (v3Error "proof_proposal")
  let pp ← commitmentOf (.dict p)
  let d ← t.asDict
  require ((Value.dict (without pp ["step", "valid_round"])).pyEq (.dict (without d ["step"])) =
    true) (v3Error "proof_proposal_context")

/-- The proposal of a commit. -/
def checkProposal (proposal t : Value) : Audit Unit := do
  (if proposal = .null then Audit.stop (.incompleteData "missing_signed_proposal") else pure ())
  let raw ← Audit.ofPy (J proposal)
  let p ← authenticate crypto ctx raw
  Audit.ofPy (checkContext p t)

/-- The fields of a kind, which is `pv` or `q4`. -/
def shapeOf : ProofKind → Py Shape
  | .pv => .ok pvShape
  | .q4 => .ok q4Shape
  | .re => .error (v3Error "proof_kind")

/-- `_certificate`. -/
def certificate (raw : ByteArray) (kind : ProofKind) : Audit Dict := do
  let shape ← Audit.ofPy (shapeOf kind)
  let v ← Audit.ofPy (parse raw kind.limit)
  let obj ← Audit.ofPy (closed v [shape.version, "commitment", shape.votes]
    (if shape.proposal then ["proposal"] else []))
  let number ← Audit.ofPy (uint (obj.get shape.version) 0 maxUint)
  Audit.ofPy (require (number = shape.number) (v3Error "proof_version"))
  let t := obj.get "commitment"
  Audit.ofPy (commitment ctx t shape)
  let votes ← Audit.ofPy (listBetween (obj.get shape.votes) 0 4 "proof_count_bound")
  let ids ← checkVotes crypto ctx t [] votes
  Audit.ofPy (require (ids = ids.insertionSort (· ≤ ·)) (v3Error "proof_order"))
  (if shape.proposal then checkProposal crypto ctx (obj.get "proposal") t else pure ())
  (if votes.length < 3 then
    Audit.stop (.insufficientQuorum "requires_3_distinct_authorized_signers") else pure ())
  pure obj

/-- `_Partial`, as `_run` reports it. -/
def shortOf (outcome : Outcome) (detail : String) (work : Work) : Verification where
  outcome
  detail
  fixtureMembershipAuthenticated := true
  signaturesValid := true
  signatureChecks := work.checks
  distinctSigners := work.distinct

/-- `_run`, under an authority with a context. -/
def run (action : Audit Verification) : Py Verification :=
  match action {} with
  | (.ok result, _) => .ok result
  | (.error (.incompleteData detail), work) => .ok (shortOf .incompleteData detail work)
  | (.error (.insufficientQuorum detail), work) => .ok (shortOf .insufficientQuorum detail work)
  | (.error (.raised e), work) =>
    match e.exc, e.code with
    | .v3Error, some code => .ok {
        outcome := if code = "context" ∨ code = "proof_context" then .wrongContext
          else .invalidProof
        detail := code, fixtureMembershipAuthenticated := true,
        signatureChecks := work.checks, distinctSigners := work.distinct }
    | _, _ => .error e

def ProofKind.name : ProofKind → String
  | .pv => "pv"
  | .q4 => "q4"
  | .re => "re"

/-- `verify_quorum`. -/
def verifyQuorum (raw : ByteArray) (kind : ProofKind) : Py Verification :=
  run do
    let _ ← certificate crypto ctx raw kind
    let work ← get
    pure {
      outcome := .validQuorum
      detail := "canonical_" ++ ProofKind.name kind ++
        "_crypto_core; G2/application/ancestry/execution_unverified"
      fixtureMembershipAuthenticated := true, signaturesValid := true,
      quorumStructureValid := true, signatureChecks := work.checks,
      distinctSigners := work.distinct, proofId := some (crypto.sha256Hex raw) }

/-! ## Audits -/

theorem audit_bind_ok {α β : Type} {x : Audit α} {f : α → Audit β} {work work' : Work} {a : α}
    (h : x work = (.ok a, work')) : (x >>= f) work = f a work' := by
  show (ExceptT.bind x f) work = _
  simp only [ExceptT.bind, ExceptT.mk, bind, StateT.bind, h]
  rfl

theorem audit_bind_error {α β : Type} {x : Audit α} {f : α → Audit β} {work work' : Work}
    {e : Stop} (h : x work = (.error e, work')) : (x >>= f) work = (.error e, work') := by
  show (ExceptT.bind x f) work = _
  simp only [ExceptT.bind, ExceptT.mk, bind, StateT.bind, h]
  rfl

theorem audit_bind {α β : Type} {x : Audit α} {f : α → Audit β} {work : Work} {b : β} :
    ((x >>= f) work).1 = .ok b ↔ ∃ a, (x work).1 = .ok a ∧ (f a (x work).2).1 = .ok b := by
  rcases h : x work with ⟨e | a, work'⟩
  · rw [audit_bind_error h]
    simp
  · rw [audit_bind_ok h]
    simp

theorem audit_ofPy {α : Type} {x : Py α} {work : Work} {a : α} :
    (Audit.ofPy x work).1 = .ok a ↔ x = .ok a := by
  cases x <;> simp [Audit.ofPy]

theorem run_valid {action : Audit Verification} {r : Verification}
    (h : run action = .ok r) (hr : r.outcome = .validQuorum) : (action {}).1 = .ok r := by
  unfold run at h
  split at h
  · next heq => rw [heq, ← Except.ok.inj h]
  · rw [← Except.ok.inj h] at hr
    cases hr
  · rw [← Except.ok.inj h] at hr
    cases hr
  · split at h
    · rw [← Except.ok.inj h] at hr
      simp only at hr
      split at hr <;> cases hr
    · cases h

/-- A quorum is valid when the checks of `_certificate` pass. -/
theorem verifyQuorum_valid_iff {raw : ByteArray} {kind : ProofKind} :
    (∃ r, verifyQuorum crypto ctx raw kind = .ok r ∧ r.outcome = .validQuorum) ↔
      ∃ obj, (certificate crypto ctx raw kind {}).1 = .ok obj := by
  constructor
  · rintro ⟨r, hrun, hr⟩
    obtain ⟨obj, hobj, -⟩ := audit_bind.mp (run_valid hrun hr)
    exact ⟨obj, hobj⟩
  · rintro ⟨obj, hobj⟩
    rcases hcertificate : certificate crypto ctx raw kind {} with ⟨_, work⟩
    rw [hcertificate] at hobj
    obtain rfl : _ = Except.ok obj := hobj
    rw [verifyQuorum, run, audit_bind_ok hcertificate]
    exact ⟨_, rfl, rfl⟩

/-! ## Commitments of payloads -/

/-- The fields of the commitment of a payload, in order. -/
def payloadCommitmentFields (proposal : Bool) : List String :=
  ["agreement_profile_digest", "block_hash", "block_height", "genesis_hash", "message_version",
    "parent_hash", "round", "step"] ++ (if proposal then ["valid_round"] else []) ++
  ["validator_epoch", "validator_set_commitment"]

theorem keys_commitment (p : Payload) :
    (p.commitment ctx).map Prod.fst = payloadCommitmentFields p.step.isPropose := by
  cases hs : p.step <;>
    simp [Payload.commitment, Payload.head, Step.validRound, payloadCommitmentFields, hs,
      Step.isPropose]

theorem sorted_commitment (p : Payload) :
    ((p.commitment ctx).map Prod.fst).Pairwise (· < ·) := by
  rw [keys_commitment]
  cases p.step.isPropose <;> decide +kernel

theorem exact_commitment (p : Payload) : ∀ x ∈ p.commitment ctx, x.2.isExact = true := by
  have hblock : (optionText p.blockHash).isExact = true := by
    cases p.blockHash <;> rfl
  have hround : ∀ x ∈ p.step.validRound, x.2.isExact = true := by
    cases p.step <;> simp [Step.validRound, Value.isExact]
  intro x hx
  simp only [Payload.commitment, Payload.head, List.mem_append, List.mem_cons, List.not_mem_nil,
    or_false] at hx
  rcases hx with ((rfl | rfl | rfl | rfl | rfl | rfl | rfl | rfl) | hx) | (rfl | rfl)
  all_goals first | exact hround x hx | exact hblock | rfl

theorem get_commitment (p : Payload) :
    (p.commitment ctx).get "step" = .str p.step.name ∧
      (p.commitment ctx).get "message_version" = .int 1 ∧
      (p.commitment ctx).get "validator_epoch" = .int 0 ∧
      (p.commitment ctx).get "block_height" = .int p.height ∧
      (p.commitment ctx).get "round" = .int p.round ∧
      (p.commitment ctx).get "genesis_hash" = .str ctx.genesisHash ∧
      (p.commitment ctx).get "parent_hash" = .str p.parentHash ∧
      (p.commitment ctx).get "agreement_profile_digest" = .str ctx.profileDigest ∧
      (p.commitment ctx).get "validator_set_commitment" = .str ctx.setCommitment ∧
      (p.commitment ctx).get "block_hash" = optionText p.blockHash := by
  cases hs : p.step <;>
    simp [Payload.commitment, Payload.head, Step.validRound, hs, Dict.get, Dict.get?_cons]

theorem optionText_eq_null {s : Option String} : optionText s = .null ↔ s = none := by
  cases s <;> simp [optionText]

theorem mem_commitmentFields (k : String) :
    k ∈ payloadCommitmentFields false ↔ k ∈ commitmentFields :=
  List.Perm.mem_iff (by decide +kernel)

/-- The commitment of a valid vote passes `_commitment`. -/
theorem commitment_of_valid {p : Payload} {shape : Shape} (hp : p.Valid ctx)
    (hpropose : p.step.isPropose = false) (hstep : p.step.name = shape.step)
    (hblock : shape.proposal = true → p.blockHash ≠ none) :
    commitment ctx (.dict (p.commitment ctx)) shape = .ok () := by
  obtain ⟨hs, hversion, hepoch, hheight, hround, hgenesis, hparent, hprofile, hset, hhash⟩ :=
    get_commitment ctx p
  obtain ⟨hg, ha, hc⟩ := hp.context
  have hclosed : closed (.dict (p.commitment ctx)) commitmentFields [] =
      .ok (p.commitment ctx) := by
    refine closed_of_keys fun k => ?_
    rw [keys_commitment, hpropose]
    exact mem_commitmentFields k
  have hoption : ∃ b, (if optionText p.blockHash = .null then .ok ""
      else h64 (optionText p.blockHash)) = .ok b := by
    cases hb : p.blockHash with
    | none => exact ⟨"", if_pos rfl⟩
    | some b => exact ⟨b, (if_neg nofun).trans (h64_eq_ok.mpr ⟨rfl, hp.blockHash b hb⟩)⟩
  obtain ⟨b, hb⟩ := hoption
  have hfirst : p.height = 1 → isText (.str p.parentHash) ctx.genesisHash := fun h =>
    isText_iff.mpr (congrArg Value.str (hp.parent h))
  rw [commitment, hclosed, ok_bind, hs, hstep, require_pos (isText_str _), ok_bind, hversion,
    uint_eq_ok.mpr ⟨rfl, by decide⟩, ok_bind, require_pos rfl, ok_bind, hepoch,
    uint_eq_ok.mpr ⟨rfl, by decide⟩, ok_bind, require_pos rfl, ok_bind, hheight,
    uint_eq_ok.mpr ⟨rfl, hp.height⟩, ok_bind, hround, uint_eq_ok.mpr ⟨rfl, hp.round⟩, ok_bind,
    hgenesis, h64_eq_ok.mpr ⟨rfl, hg⟩, ok_bind, hparent, h64_eq_ok.mpr ⟨rfl, hp.parentHash⟩,
    ok_bind, hprofile, h64_eq_ok.mpr ⟨rfl, ha⟩, ok_bind, hset, h64_eq_ok.mpr ⟨rfl, hc⟩, ok_bind,
    require_pos ⟨isText_str _, isText_str _, isText_str _⟩, ok_bind, require_pos hfirst, ok_bind,
    hhash, hb, ok_bind]
  exact require_pos fun hq => optionText_eq_null.not.mpr (hblock hq)

/-- What `_commitment` passes has no `bool`. -/
theorem exact_of_commitment {t : Value} {shape : Shape} (ht : Ordered t)
    (h : commitment ctx t shape = .ok ()) : ∃ d : Dict, t = .dict d ∧
      (∀ x ∈ d, x.2.isExact = true) ∧ d.get "step" = .str shape.step ∧
      (shape.proposal = true → d.get "block_hash" ≠ .null) := by
  obtain ⟨d, hd, h⟩ := bind_eq_ok.mp h
  obtain ⟨⟨⟩, hstep, h⟩ := bind_eq_ok.mp h
  obtain ⟨messageVersion, hversion, h⟩ := bind_eq_ok.mp h
  obtain ⟨⟨⟩, -, h⟩ := bind_eq_ok.mp h
  obtain ⟨epoch, hepoch, h⟩ := bind_eq_ok.mp h
  obtain ⟨⟨⟩, -, h⟩ := bind_eq_ok.mp h
  obtain ⟨height, hheight, h⟩ := bind_eq_ok.mp h
  obtain ⟨round, hround, h⟩ := bind_eq_ok.mp h
  obtain ⟨genesis, hgenesis, h⟩ := bind_eq_ok.mp h
  obtain ⟨parent, hparent, h⟩ := bind_eq_ok.mp h
  obtain ⟨profile, hprofile, h⟩ := bind_eq_ok.mp h
  obtain ⟨set, hset, h⟩ := bind_eq_ok.mp h
  obtain ⟨⟨⟩, -, h⟩ := bind_eq_ok.mp h
  obtain ⟨⟨⟩, -, h⟩ := bind_eq_ok.mp h
  obtain ⟨hash, hhash, hnil⟩ := bind_eq_ok.mp h
  obtain rfl := closed_eq_ok hd
  have hblock : (d.get "block_hash").isExact = true := by
    split at hhash
    · next hnull => rw [hnull]; rfl
    · rw [(h64_eq_ok.mp hhash).1]; rfl
  obtain ⟨-, hentries⟩ := eq_of_closed (l := payloadCommitmentFields false) ht.1 hd
    (by decide +kernel) mem_commitmentFields
  refine ⟨d, rfl, ?_, isText_iff.mp (require_eq_ok.mp hstep), require_eq_ok.mp hnil⟩
  have hall : ∀ k ∈ payloadCommitmentFields false, (d.get k).isExact = true := by
    intro k hk
    simp only [payloadCommitmentFields, List.mem_append, List.mem_cons, List.not_mem_nil, or_false,
      Bool.false_eq_true, if_false] at hk
    rcases hk with (rfl | rfl | rfl | rfl | rfl | rfl | rfl | rfl) | (rfl | rfl)
    · rw [(h64_eq_ok.mp hprofile).1]; rfl
    · exact hblock
    · rw [(uint_eq_ok.mp hheight).1]; rfl
    · rw [(h64_eq_ok.mp hgenesis).1]; rfl
    · rw [(uint_eq_ok.mp hversion).1]; rfl
    · rw [(h64_eq_ok.mp hparent).1]; rfl
    · rw [(uint_eq_ok.mp hround).1]; rfl
    · rw [isText_iff.mp (require_eq_ok.mp hstep)]; rfl
    · rw [(uint_eq_ok.mp hepoch).1]; rfl
    · rw [(h64_eq_ok.mp hset).1]; rfl
  intro x hx
  rw [hentries] at hx
  obtain ⟨k, hk, rfl⟩ := List.mem_map.mp hx
  exact hall k hk

/-! ## Certified commitments -/

/-- The votes and the proposal of an object certify a commitment. -/
structure Certified (shape : Shape) (obj : Dict) (ms : List SignedMessage) (t : Dict) : Prop where
  fields : closed (.dict obj) ([shape.version, "commitment", shape.votes] ++
    if shape.proposal then ["proposal"] else []) [] = .ok obj
  number : obj.get shape.version = .int shape.number
  votes : obj.get shape.votes = .list (ms.map fun m => .dict (m.toDict ctx))
  signed : ∀ m ∈ ms, m.Signed crypto ctx
  count : 3 ≤ ms.length ∧ ms.length ≤ 4
  order : (ms.map fun m => m.payload.validatorId).Pairwise (· < ·)
  commitment : ∀ m ∈ ms, m.payload.commitment ctx = t
  step : t.get "step" = .str shape.step
  proposal : shape.proposal = true → t.get "block_hash" ≠ .null ∧
    ∃ p : SignedMessage, p.Signed crypto ctx ∧ obj.get "proposal" = .dict (p.toDict ctx) ∧
      p.payload.step.isPropose = true ∧
      without (p.payload.commitment ctx) ["step", "valid_round"] = without t ["step"]

variable {crypto ctx}

theorem mapM_signedValue {vs : List Value} (hvs : ∀ v ∈ vs, Ordered v) :
    (∃ ss, vs.mapM (signedValue crypto ctx) = .ok ss) ↔ ∃ ms : List SignedMessage,
      vs = ms.map (fun m => .dict (m.toDict ctx)) ∧ ∀ m ∈ ms, m.Signed crypto ctx := by
  induction vs with
  | nil => exact ⟨fun _ => ⟨[], rfl, nofun⟩, fun _ => ⟨[], rfl⟩⟩
  | cons v vs ih =>
    obtain ⟨hv, hrest⟩ := List.forall_mem_cons.mp hvs
    constructor
    · rintro ⟨ss, h⟩
      rw [List.mapM_cons] at h
      obtain ⟨s, hs, h⟩ := bind_eq_ok.mp h
      obtain ⟨ss', hss, -⟩ := bind_eq_ok.mp h
      obtain ⟨rfl, m, hm, rfl⟩ := (signedValue_eq_ok hv).mp hs
      obtain ⟨ms, rfl, hms⟩ := (ih hrest).mp ⟨ss', hss⟩
      exact ⟨m :: ms, rfl, List.forall_mem_cons.mpr ⟨hm, hms⟩⟩
    · rintro ⟨ms, hmap, hms⟩
      cases ms with
      | nil => cases hmap
      | cons m ms =>
        obtain ⟨rfl, htail⟩ := List.cons.inj hmap
        obtain ⟨hm, hms⟩ := List.forall_mem_cons.mp hms
        obtain ⟨ss, hss⟩ := (ih hrest).mpr ⟨ms, htail, hms⟩
        have hs := (signedValue_eq_ok hv).mpr ⟨rfl, m, hm, rfl⟩
        rw [List.mapM_cons, hs, ok_bind, hss]
        exact ⟨_, rfl⟩

theorem mapM_validatorIdOf (ms : List SignedMessage) :
    (ms.map fun m => Value.dict (m.toDict ctx)).mapM validatorIdOf =
      .ok (ms.map fun m => m.payload.validatorId) := by
  induction ms with
  | nil => rfl
  | cons m ms ih =>
    rw [List.map_cons, List.mapM_cons, validatorIdOf_toDict, ok_bind, ih]
    rfl

theorem insertionSort_eq_iff {ids : List String} (hids : ids.Nodup) :
    ids = ids.insertionSort (· ≤ ·) ↔ ids.Pairwise (· < ·) := by
  constructor
  · intro h
    have hsorted : ids.Pairwise (· ≤ ·) := h ▸ List.pairwise_insertionSort (· ≤ ·) ids
    exact hsorted.imp₂ (fun _ _ hle hne => lt_of_le_of_ne hle hne) hids
  · intro h
    have hle : ids.Pairwise (· ≤ ·) := h.imp le_of_lt
    exact hle.insertionSort_eq.symm

theorem eq_sortedSet_iff {ids : List String} : ids = sortedSet ids ↔ ids.Pairwise (· < ·) := by
  constructor
  · intro h
    have hperm : ids.Perm ids.dedup := by
      conv_lhs => rw [h]
      exact List.perm_insertionSort _ _
    have hnodup : ids.Nodup := hperm.nodup_iff.mpr (List.nodup_dedup ids)
    rw [sortedSet, hnodup.dedup] at h
    exact (insertionSort_eq_iff hnodup).mp h
  · intro h
    have hnodup : ids.Nodup := h.imp ne_of_lt
    rw [sortedSet, hnodup.dedup]
    exact (insertionSort_eq_iff hnodup).mpr h

theorem checkCommitments_eq_ok {t : Value} {ms : List SignedMessage} :
    checkCommitments t (ms.map fun m => Value.dict (m.toDict ctx)) = .ok () ↔
      ∀ m ∈ ms, (Value.dict (m.payload.commitment ctx)).pyEq t = true := by
  induction ms with
  | nil => exact ⟨fun _ => nofun, fun _ => rfl⟩
  | cons m ms ih =>
    rw [List.map_cons, checkCommitments, commitmentOf_toDict, ok_bind, bind_eq_ok,
      List.forall_mem_cons, ← ih]
    constructor
    · rintro ⟨⟨⟩, hm, hms⟩
      exact ⟨require_eq_ok.mp hm, hms⟩
    · rintro ⟨hm, hms⟩
      exact ⟨(), require_pos hm, hms⟩

theorem listBetween_eq_ok {v : Value} {low high : Nat} {code : String} {xs : List Value} :
    listBetween v low high code = .ok xs ↔ v = .list xs ∧ low ≤ xs.length ∧ xs.length ≤ high := by
  cases v with
  | list ys =>
    rw [listBetween]
    split
    · next h =>
      constructor
      · intro heq
        cases heq
        exact ⟨rfl, h⟩
      · rintro ⟨heq, -⟩
        rw [Value.list.inj heq]
    · next h =>
      constructor
      · nofun
      · rintro ⟨heq, hxs⟩
        exact absurd (Value.list.inj heq ▸ hxs) h
  | _ => simp [listBetween]

theorem get_without {d : Dict} {keys : List String} {k : String} (hk : k ∉ keys) :
    (without d keys).get k = d.get k := by
  have hget : Dict.get? (without d keys) k = Dict.get? d k := by
    induction d with
    | nil => rfl
    | cons e d ih =>
      obtain ⟨l, v⟩ := e
      by_cases hl : keys.contains l = true
      · have hne : l ≠ k := by
          rintro rfl
          exact hk (List.contains_iff_mem.mp hl)
        rw [without, List.filter_cons_of_neg (by simpa using hl), Dict.get?_cons, if_neg hne]
        exact ih
      · rw [without, List.filter_cons_of_pos (by simpa using hl), Dict.get?_cons, Dict.get?_cons]
        split
        · rfl
        · exact ih
  exact Dict.get_congr hget

/-- Equal `dict`s stay equal without some keys. -/
theorem pyEq_without {d e : Dict} {l : List String} (hd : (d.map Prod.fst).Pairwise (· < ·))
    (he : (e.map Prod.fst).Pairwise (· < ·)) (h : (Value.dict d).pyEq (.dict e) = true) :
    (Value.dict (without d l)).pyEq (.dict (without e l)) = true := by
  have hkeys : ∀ f : Dict, (without f l).map Prod.fst =
      (f.map Prod.fst).filter fun k => !l.contains k := by
    intro f
    rw [without, List.filter_map]
    rfl
  obtain ⟨hsame, hitems⟩ := (Value.pyEq_sorted_iff hd he).mp h
  have hsorted : ∀ {f : Dict}, (f.map Prod.fst).Pairwise (· < ·) →
      ((without f l).map Prod.fst).Pairwise (· < ·) := by
    intro f hf
    rw [hkeys]
    exact hf.filter _
  refine (Value.pyEq_sorted_iff (hsorted hd) (hsorted he)).mpr ⟨?_, fun k hk => ?_⟩
  · rw [hkeys, hkeys, hsame]
  · rw [hkeys] at hk
    obtain ⟨hk, hnot⟩ := List.mem_filter.mp hk
    have hnot : k ∉ l := by simpa using hnot
    rw [get_without hnot, get_without hnot]
    exact hitems k hk

theorem objectsItems_iff {P : Dict → Prop} {xs : List Value} :
    Json.ObjectsItems P xs ↔ ∀ x ∈ xs, Json.Objects P x := by
  induction xs with
  | nil => exact ⟨fun _ => nofun, fun _ => trivial⟩
  | cons x xs ih => simp [Json.ObjectsItems, ih]

theorem sorted_without {d : Dict} {keys : List String} (hd : (d.map Prod.fst).Pairwise (· < ·)) :
    ((without d keys).map Prod.fst).Pairwise (· < ·) :=
  (List.pairwise_map.mpr ((List.pairwise_map.mp hd).filter _))

theorem isText_propose (p : Payload) :
    isText ((p.toDict ctx).get "step") "propose" ↔ p.step.isPropose = true := by
  obtain ⟨-, -, -, -, -, -, -, -, -, hstep, -⟩ := get_toDict ctx p
  rw [hstep, isText_iff]
  cases p.step <;> simp [Step.name, Step.isPropose]

/-- A proposal whose context equals that of the stated commitment has that of the certified
one. -/
theorem context_iff {p : Payload} {q : Payload} {s : Dict}
    (hs : (s.map Prod.fst).Pairwise (· < ·))
    (h : (Value.dict (q.commitment ctx)).pyEq (.dict s) = true) :
    (Value.dict (without (p.commitment ctx) ["step", "valid_round"])).pyEq
        (.dict (without s ["step"])) = true ↔
      without (p.commitment ctx) ["step", "valid_round"] =
        without (q.commitment ctx) ["step"] := by
  have hwithout := pyEq_without (l := ["step"]) (sorted_commitment ctx q) hs h
  have hexact : ∀ (r : Payload) (keys), ∀ x ∈ without (r.commitment ctx) keys,
      x.2.isExact = true := fun r keys x hx => exact_commitment ctx r x (List.mem_filter.mp hx).1
  constructor
  · intro hp
    exact Dict.eq_of_pyEq (sorted_without (sorted_commitment ctx p))
      (sorted_without (sorted_commitment ctx q)) (sorted_without hs) (hexact p _) (hexact q _) hp
      hwithout
  · intro heq
    rwa [heq]

theorem checkProposal_eq_ok {v : Value} {q : Payload} {s : Dict} (hv : Ordered v)
    (hs : (s.map Prod.fst).Pairwise (· < ·))
    (h : (Value.dict (q.commitment ctx)).pyEq (.dict s) = true) :
    Bft.checkProposal crypto ctx v (.dict s) = .ok () ↔ s.get "block_hash" ≠ .null ∧
      ∃ p : SignedMessage, p.Signed crypto ctx ∧ v = .dict (p.toDict ctx) ∧
        p.payload.step.isPropose = true ∧
        without (p.payload.commitment ctx) ["step", "valid_round"] =
          without (q.commitment ctx) ["step"] := by
  constructor
  · intro hok
    obtain ⟨d, hd, hrest⟩ := bind_eq_ok.mp hok
    obtain ⟨rfl, p, hp, rfl⟩ := (signedValue_eq_ok hv).mp hd
    simp only [payloadOf_toDict, commitmentOf_toDict, ok_bind] at hrest
    obtain ⟨hash, hhash, hlast⟩ := bind_eq_ok.mp hrest
    obtain ⟨⟨⟩, hrequire, hcontext⟩ := bind_eq_ok.mp hlast
    obtain ⟨hpropose, hnull⟩ := require_eq_ok.mp hrequire
    refine ⟨?_, p, hp, rfl, (isText_propose p.payload).mp hpropose,
      (context_iff hs h).mp (require_eq_ok.mp hcontext)⟩
    cases hget : Dict.get? s "block_hash" with
    | none => simp [Value.item, Dict.index, hget] at hhash
    | some w =>
      obtain rfl : w = hash := by simpa [Value.item, Dict.index, hget] using hhash
      rwa [Dict.get, hget]
  · rintro ⟨hnull, p, hp, rfl, hpropose, hcontext⟩
    have hitem : (Value.dict s).item "block_hash" = .ok (s.get "block_hash") := by
      cases hget : Dict.get? s "block_hash" with
      | none => exact absurd (by rw [Dict.get, hget]; rfl) hnull
      | some w => simp [Value.item, Dict.index, Dict.get, hget]
    have hsigned := (signedValue_eq_ok hv).mpr ⟨rfl, p, hp, rfl⟩
    rw [Bft.checkProposal, hsigned, ok_bind, payloadOf_toDict, ok_bind, hitem, ok_bind,
      require_pos ⟨(isText_propose p.payload).mpr hpropose, hnull⟩, ok_bind, commitmentOf_toDict,
      ok_bind]
    exact require_pos ((context_iff hs h).mpr hcontext)

theorem dict_of_pyEq {d : Dict} {v : Value} (h : (Value.dict d).pyEq v = true) :
    ∃ e : Dict, v = .dict e := by
  cases v with
  | dict e => exact ⟨e, rfl⟩
  | _ => cases h

/-- The purpose and the block of a stated commitment are those of the commitment it equals. -/
theorem stated_fields {q : Payload} {s : Dict} (hs : (s.map Prod.fst).Pairwise (· < ·))
    (h : (Value.dict (q.commitment ctx)).pyEq (.dict s) = true) :
    s.get "step" = .str q.step.name ∧ (s.get "block_hash" = .null ↔ q.blockHash = none) := by
  obtain ⟨-, hitems⟩ := (Value.pyEq_sorted_iff (sorted_commitment ctx q) hs).mp h
  rw [keys_commitment] at hitems
  obtain ⟨hstep, -, -, -, -, -, -, -, -, hhash⟩ := get_commitment ctx q
  have hstep' := hitems "step" (by simp [payloadCommitmentFields])
  have hhash' := hitems "block_hash" (by simp [payloadCommitmentFields])
  rw [hstep] at hstep'
  rw [hhash] at hhash'
  constructor
  · cases hget : s.get "step" <;> rw [hget] at hstep' <;> simp [Value.pyEq] at hstep'
    rw [hstep']
  · cases hb : q.blockHash with
    | none =>
      cases hget : s.get "block_hash" <;> rw [hget, hb] at hhash' <;>
        simp [Value.pyEq, optionText] at hhash' ⊢
    | some b =>
      cases hget : s.get "block_hash" <;> rw [hget, hb] at hhash' <;>
        simp [Value.pyEq, optionText] at hhash' ⊢

theorem shapeOf_eq_ok {kind : ProofKind} {shape : Shape} (h : shapeOf kind = .ok shape) :
    shape = pvShape ∨ shape = q4Shape := by
  cases kind <;> cases h
  · exact Or.inl rfl
  · exact Or.inr rfl

theorem shape_number {shape : Shape} (h : shape = pvShape ∨ shape = q4Shape) :
    0 ≤ shape.number ∧ shape.number ≤ maxUint := by
  obtain rfl | rfl := h <;> decide

/-- `proof` asks that the stated commitment equals the certified one. -/
theorem certificate_eq_ok {shape : Shape} (hshape : shape = pvShape ∨ shape = q4Shape)
    {obj : Dict} (hobj : Ordered (.dict obj)) :
    Bft.certificate crypto ctx shape (.dict obj) = .ok obj ↔
      ∃ ms t, Certified crypto ctx shape obj ms t ∧
        (Value.dict t).pyEq (obj.get "commitment") = true := by
  have hstated : Ordered (obj.get "commitment") := ordered_get hobj
  constructor
  · intro hok
    obtain ⟨d, hd, hrest⟩ := bind_eq_ok.mp hok
    obtain rfl : obj = d := Value.dict.inj (closed_eq_ok hd)
    obtain ⟨number, hnumber, h⟩ := bind_eq_ok.mp hrest
    obtain ⟨⟨⟩, hsame, h⟩ := bind_eq_ok.mp h
    obtain ⟨votes, hvotes, h⟩ := bind_eq_ok.mp h
    obtain ⟨⟨⟩, hsigners, h⟩ := bind_eq_ok.mp h
    obtain ⟨⟨⟩, hcommitments, h⟩ := bind_eq_ok.mp h
    obtain ⟨step, hitem, h⟩ := bind_eq_ok.mp h
    obtain ⟨⟨⟩, hstep, h⟩ := bind_eq_ok.mp h
    obtain ⟨⟨⟩, hproposal, -⟩ := bind_eq_ok.mp h
    obtain ⟨hlist, hlow, hhigh⟩ := listBetween_eq_ok.mp hvotes
    have hordered : ∀ v ∈ votes, Ordered v := by
      have hget : Ordered (obj.get shape.votes) := ordered_get hobj
      rw [hlist] at hget
      exact objectsItems_iff.mp hget
    obtain ⟨ss, hss, hids⟩ := bind_eq_ok.mp hsigners
    obtain ⟨ids, hmap, hsorted⟩ := bind_eq_ok.mp hids
    obtain ⟨ms, rfl, hms⟩ := (mapM_signedValue hordered).mp ⟨ss, hss⟩
    rw [mapM_validatorIdOf] at hmap
    cases hmap
    rw [List.length_map] at hlow hhigh
    have hall := checkCommitments_eq_ok.mp hcommitments
    obtain ⟨m, hm⟩ : ∃ m, m ∈ ms := List.exists_mem_of_length_pos (by omega)
    obtain ⟨s, hs⟩ := dict_of_pyEq (hall m hm)
    rw [hs] at hall hstated hitem hproposal
    have hfields := stated_fields hstated.1 (hall m hm)
    refine ⟨ms, m.payload.commitment ctx, ?_, hs ▸ hall m hm⟩
    exact {
      fields := hd
      number := require_eq_ok.mp hsame ▸ (uint_eq_ok.mp hnumber).1
      votes := hlist
      signed := hms
      count := ⟨hlow, hhigh⟩
      order := eq_sortedSet_iff.mp (require_eq_ok.mp hsorted)
      commitment := fun m' hm' => Dict.eq_of_pyEq (sorted_commitment ctx _)
        (sorted_commitment ctx _) hstated.1 (exact_commitment ctx _) (exact_commitment ctx _)
        (hall m' hm') (hall m hm)
      step := by
        obtain ⟨hname, -, -, -, -, -, -, -, -, -⟩ := get_commitment ctx m.payload
        rw [hname, ← hfields.1]
        have hget : s.get "step" = step := by
          cases hstep' : Dict.get? s "step" with
          | none => simp [Value.item, Dict.index, hstep'] at hitem
          | some w => simpa [Value.item, Dict.index, Dict.get, hstep'] using hitem
        rw [hget]
        exact isText_iff.mp (require_eq_ok.mp hstep)
      proposal := fun hp => by
        rw [if_pos hp] at hproposal
        obtain ⟨hnull, hsigned⟩ :=
          (checkProposal_eq_ok (ordered_get hobj) hstated.1 (hall m hm)).mp hproposal
        obtain ⟨-, -, -, -, -, -, -, -, -, hhash⟩ := get_commitment ctx m.payload
        refine ⟨?_, hsigned⟩
        rw [hhash]
        exact optionText_eq_null.not.mpr (hfields.2.not.mp hnull) }
  · rintro ⟨ms, t, h, heq⟩
    obtain ⟨m, hm⟩ : ∃ m, m ∈ ms := List.exists_mem_of_length_pos (by have := h.count; omega)
    obtain rfl := h.commitment m hm
    obtain ⟨s, hs⟩ := dict_of_pyEq heq
    rw [hs] at heq hstated
    obtain ⟨hname, -, -, -, -, -, -, -, -, hhash⟩ := get_commitment ctx m.payload
    obtain ⟨hstep, hnull⟩ := stated_fields hstated.1 heq
    have hordered : ∀ v ∈ ms.map fun m => Value.dict (m.toDict ctx), Ordered v := by
      rintro v hv
      obtain ⟨m', -, rfl⟩ := List.mem_map.mp hv
      exact ordered_signed ctx m'
    obtain ⟨ss, hss⟩ := (mapM_signedValue hordered).mpr ⟨ms, rfl, h.signed⟩
    have hsigners : checkSigners crypto ctx (ms.map fun m => .dict (m.toDict ctx)) = .ok () := by
      rw [checkSigners, hss, ok_bind, mapM_validatorIdOf, ok_bind]
      exact require_pos (eq_sortedSet_iff.mpr h.order)
    have hcommitments : checkCommitments (.dict s) (ms.map fun m => .dict (m.toDict ctx)) =
        .ok () := checkCommitments_eq_ok.mpr fun m' hm' => by rwa [h.commitment m' hm']
    have hitem : (Value.dict s).item "step" = .ok (.str shape.step) := by
      have hget : s.get "step" = .str shape.step := by rw [hstep, ← hname, h.step]
      cases hstep' : Dict.get? s "step" with
      | none => rw [Dict.get, hstep'] at hget; cases hget
      | some w => rw [Dict.get, hstep'] at hget; simpa [Value.item, Dict.index, hstep'] using hget
    have hproposal : (if shape.proposal = true then
        Bft.checkProposal crypto ctx (obj.get "proposal") (.dict s) else .ok ()) = .ok () := by
      split
      · next hp =>
        obtain ⟨hblock, hsigned⟩ := h.proposal hp
        rw [hhash] at hblock
        exact (checkProposal_eq_ok (ordered_get hobj) hstated.1 heq).mpr
          ⟨hnull.not.mpr (optionText_eq_null.not.mp hblock), hsigned⟩
      · rfl
    have hcount := h.count
    unfold Bft.certificate
    rw [h.fields, ok_bind, h.number, uint_eq_ok.mpr ⟨rfl, shape_number hshape⟩, ok_bind,
      require_pos rfl, ok_bind, h.votes, listBetween_eq_ok.mpr ⟨rfl, by simpa using hcount⟩,
      ok_bind, hsigners, ok_bind, hs]
    simp only [hcommitments, hitem, hproposal, ok_bind, require_pos (isText_str shape.step)]

theorem audit_count {f : Work → Work} {work : Work} {u : Unit} :
    (Audit.count f work).1 = .ok u ↔ True := ⟨fun _ => trivial, fun _ => rfl⟩

theorem authenticate_eq_ok {raw : ByteArray} {work : Work} {s : Dict} :
    (authenticate crypto ctx raw work).1 = .ok s ↔ signed crypto raw ctx = .ok s := by
  rw [authenticate, audit_bind]
  constructor
  · rintro ⟨⟨⟩, -, h⟩
    exact audit_ofPy.mp h
  · intro h
    exact ⟨(), rfl, audit_ofPy.mpr h⟩

/-- The loop passes signed votes of distinct validators whose commitments equal the stated
one. -/
theorem checkVotes_eq_ok {t : Value} {vs : List Value} (hvs : ∀ v ∈ vs, Ordered v)
    {seen : List (String × ByteArray)} (hseen : (seen.map Prod.fst).Nodup) {work : Work}
    {ids : List String} : (checkVotes crypto ctx t seen vs work).1 = .ok ids ↔
      ∃ ms : List SignedMessage, vs = ms.map (fun m => .dict (m.toDict ctx)) ∧
        (∀ m ∈ ms, m.Signed crypto ctx) ∧
        (∀ m ∈ ms, (Value.dict (m.payload.commitment ctx)).pyEq t = true) ∧
        ids = seen.map Prod.fst ++ ms.map (fun m => m.payload.validatorId) ∧ ids.Nodup := by
  induction vs generalizing seen work with
  | nil =>
    constructor
    · intro h
      obtain rfl : seen.map Prod.fst = ids := Except.ok.inj h
      exact ⟨[], rfl, nofun, nofun, by simp, hseen⟩
    · rintro ⟨ms, hnil, -, -, rfl, -⟩
      obtain rfl : ms = [] := List.map_eq_nil_iff.mp hnil.symm
      rw [List.map_nil, List.append_nil]
      rfl
  | cons v vs ih =>
    obtain ⟨hv, hrest⟩ := List.forall_mem_cons.mp hvs
    have hlookup : ∀ id, seen.lookup id = none ↔ id ∉ seen.map Prod.fst := by
      intro id
      rw [List.lookup_eq_none_iff]
      constructor
      · rintro h hin
        obtain ⟨p, hp, rfl⟩ := List.mem_map.mp hin
        simpa using h p hp
      · intro h p hp
        refine bne_iff_ne.mpr ?_
        rintro rfl
        exact h (List.mem_map_of_mem hp)
    have hnext : ∀ {id e}, id ∉ seen.map Prod.fst → ((seen ++ [(id, e)]).map Prod.fst).Nodup := by
      intro id e hid
      rw [List.map_append]
      exact List.nodup_append_comm.mp (List.nodup_cons.mpr ⟨hid, hseen⟩)
    constructor
    · intro h
      obtain ⟨raw, hraw, h⟩ := audit_bind.mp h
      obtain ⟨s, hs, h⟩ := audit_bind.mp h
      obtain ⟨id, hid, h⟩ := audit_bind.mp h
      obtain ⟨e, he, h⟩ := audit_bind.mp h
      have hsigned : signedValue crypto ctx v = .ok s :=
        bind_eq_ok.mpr ⟨raw, audit_ofPy.mp hraw, authenticate_eq_ok.mp hs⟩
      obtain ⟨hvalue, m, hm, rfl⟩ := (signedValue_eq_ok hv).mp hsigned
      obtain rfl : m.payload.validatorId = id := by
        have hid := audit_ofPy.mp hid
        rw [validatorIdOf_toDict] at hid
        exact Except.ok.inj hid
      cases hfound : seen.lookup m.payload.validatorId with
      | some first =>
        simp only [hfound] at h
        obtain ⟨⟨⟩, -, h⟩ := audit_bind.mp h
        cases audit_ofPy.mp h
      | none =>
        simp only [hfound] at h
        obtain ⟨⟨⟩, -, h⟩ := audit_bind.mp h
        obtain ⟨c, hc, h⟩ := audit_bind.mp h
        obtain ⟨⟨⟩, hsame, h⟩ := audit_bind.mp h
        have hc := audit_ofPy.mp hc
        rw [commitmentOf_toDict] at hc
        cases hc
        obtain ⟨ms, rfl, hms, hall, rfl, hnodup⟩ :=
          (ih hrest (hnext ((hlookup _).mp hfound))).mp h
        refine ⟨m :: ms, ?_, List.forall_mem_cons.mpr ⟨hm, hms⟩,
          List.forall_mem_cons.mpr ⟨require_eq_ok.mp (audit_ofPy.mp hsame), hall⟩, ?_, hnodup⟩
        · rw [hvalue]
          rfl
        · simp
    · rintro ⟨ms, hmap, hms, hall, rfl, hnodup⟩
      cases ms with
      | nil => cases hmap
      | cons m ms =>
        obtain ⟨rfl, htail⟩ := List.cons.inj hmap
        obtain ⟨hm, hms⟩ := List.forall_mem_cons.mp hms
        obtain ⟨hcommitment, hall⟩ := List.forall_mem_cons.mp hall
        have hsigned := (signedValue_eq_ok hv).mpr ⟨rfl, m, hm, rfl⟩
        obtain ⟨raw, hraw, hsigned⟩ := bind_eq_ok.mp hsigned
        obtain ⟨e, he, -, -⟩ := hm.1.recovered
        obtain ⟨henvelope, -, -⟩ := get_signed ctx m
        have hid : m.payload.validatorId ∉ seen.map Prod.fst := by
          intro hin
          exact (List.nodup_append.mp hnodup).2.2 _ hin _ (by simp) rfl
        rw [checkVotes]
        refine audit_bind.mpr ⟨raw, audit_ofPy.mpr hraw, audit_bind.mpr
          ⟨_, authenticate_eq_ok.mpr hsigned, audit_bind.mpr
            ⟨_, audit_ofPy.mpr (validatorIdOf_toDict ctx m), audit_bind.mpr
              ⟨e, audit_ofPy.mpr (henvelope ▸ he), ?_⟩⟩⟩⟩
        simp only [(hlookup _).mpr hid]
        refine audit_bind.mpr ⟨(), rfl, audit_bind.mpr
          ⟨_, audit_ofPy.mpr (commitmentOf_toDict ctx m), audit_bind.mpr
            ⟨(), audit_ofPy.mpr (require_pos hcommitment), ?_⟩⟩⟩
        refine (ih hrest (hnext hid)).mpr ⟨ms, htail, hms, hall, ?_, hnodup⟩
        simp


theorem nodup_seen : (([] : List (String × ByteArray)).map Prod.fst).Nodup := List.nodup_nil

/-- Optional fields that are there. -/
theorem closed_append {d : Dict} {fields optional : List String} :
    closed (.dict d) (fields ++ optional) [] = .ok d ↔
      closed (.dict d) fields optional = .ok d ∧ ∀ k ∈ optional, k ∈ Dict.keys d := by
  rw [closed, closed, bind_eq_ok, bind_eq_ok]
  simp only [List.all_append, List.append_nil, Bool.and_eq_true]
  constructor
  · rintro ⟨⟨⟩, h, -⟩
    obtain ⟨⟨hfields, hoptional⟩, hkeys⟩ := require_eq_ok.mp h
    refine ⟨⟨(), require_pos ⟨hfields, hkeys⟩, trivial⟩, fun k hk => ?_⟩
    exact List.contains_iff_mem.mp (List.all_eq_true.mp hoptional k hk)
  · rintro ⟨⟨⟨⟩, h, -⟩, hoptional⟩
    obtain ⟨hfields, hkeys⟩ := require_eq_ok.mp h
    refine ⟨(), require_pos ⟨⟨hfields, List.all_eq_true.mpr fun k hk => ?_⟩, hkeys⟩, trivial⟩
    exact List.contains_iff_mem.mpr (hoptional k hk)

theorem mem_keys_of_get {d : Dict} {key : String} (h : d.get key ≠ .null) : key ∈ Dict.keys d := by
  by_contra hnot
  rw [Dict.get, Dict.get?_eq_none.mpr hnot] at h
  exact h rfl

theorem checkContext_eq_ok {p : SignedMessage} {q : Payload} :
    checkContext (p.toDict ctx) (.dict (q.commitment ctx)) = .ok () ↔
      p.payload.step.isPropose = true ∧
        without (p.payload.commitment ctx) ["step", "valid_round"] =
          without (q.commitment ctx) ["step"] := by
  have hself : (Value.dict (q.commitment ctx)).pyEq (.dict (q.commitment ctx)) = true :=
    (Value.pyEq_sorted_iff (sorted_commitment ctx q) (sorted_commitment ctx q)).mpr
      ⟨rfl, fun k _ => Value.pyEq_self (Dict.isExact_get (exact_commitment ctx q) k)⟩
  rw [checkContext, payloadOf_toDict, ok_bind, commitmentOf_toDict, bind_eq_ok]
  constructor
  · rintro ⟨⟨⟩, hpropose, h⟩
    exact ⟨(isText_propose p.payload).mp (require_eq_ok.mp hpropose),
      (context_iff (sorted_commitment ctx q) hself).mp (require_eq_ok.mp h)⟩
  · rintro ⟨hpropose, h⟩
    exact ⟨(), require_pos ((isText_propose p.payload).mpr hpropose),
      require_pos ((context_iff (sorted_commitment ctx q) hself).mpr h)⟩

theorem verifier_checkProposal {v : Value} {q : Payload} (hv : Ordered v) {work : Work} :
    (checkProposal crypto ctx v (.dict (q.commitment ctx)) work).1 = .ok () ↔
      ∃ p : SignedMessage, p.Signed crypto ctx ∧ v = .dict (p.toDict ctx) ∧
        p.payload.step.isPropose = true ∧
        without (p.payload.commitment ctx) ["step", "valid_round"] =
          without (q.commitment ctx) ["step"] := by
  rw [checkProposal, audit_bind]
  constructor
  · rintro ⟨⟨⟩, -, h⟩
    obtain ⟨raw, hraw, h⟩ := audit_bind.mp h
    obtain ⟨s, hs, h⟩ := audit_bind.mp h
    have hsigned : signedValue crypto ctx v = .ok s :=
      bind_eq_ok.mpr ⟨raw, audit_ofPy.mp hraw, authenticate_eq_ok.mp hs⟩
    obtain ⟨rfl, p, hp, rfl⟩ := (signedValue_eq_ok hv).mp hsigned
    exact ⟨p, hp, rfl, checkContext_eq_ok.mp (audit_ofPy.mp h)⟩
  · rintro ⟨p, hp, rfl, hcontext⟩
    have hsigned := (signedValue_eq_ok hv).mpr ⟨rfl, p, hp, rfl⟩
    obtain ⟨raw, hraw, hsigned⟩ := bind_eq_ok.mp hsigned
    rw [if_neg nofun]
    exact ⟨(), rfl, audit_bind.mpr ⟨raw, audit_ofPy.mpr hraw, audit_bind.mpr
      ⟨_, authenticate_eq_ok.mpr hsigned, audit_ofPy.mpr (checkContext_eq_ok.mpr hcontext)⟩⟩⟩

/-- `verify_quorum` asks that the stated commitment is the certified one. -/
theorem verifier_eq_ok {shape : Shape} {kind : ProofKind} (hshape : shapeOf kind = .ok shape)
    {raw : ByteArray} {work : Work} :
    (∃ o, (certificate crypto ctx raw kind work).1 = .ok o) ↔
      ∃ (obj : Dict) (ms : List SignedMessage) (t : Dict), parse raw kind.limit = .ok (.dict obj) ∧
        Certified crypto ctx shape obj ms t ∧ obj.get "commitment" = .dict t := by
  constructor
  · rintro ⟨o, h⟩
    obtain ⟨shape', hshape', h⟩ := audit_bind.mp h
    obtain rfl : shape' = shape :=
      Except.ok.inj ((audit_ofPy.mp hshape').symm.trans hshape)
    obtain ⟨v, hv, h⟩ := audit_bind.mp h
    obtain ⟨obj, hobj, h⟩ := audit_bind.mp h
    obtain ⟨number, hnumber, h⟩ := audit_bind.mp h
    obtain ⟨⟨⟩, hsame, h⟩ := audit_bind.mp h
    obtain ⟨⟨⟩, hcommitment, h⟩ := audit_bind.mp h
    obtain ⟨votes, hvotes, h⟩ := audit_bind.mp h
    obtain ⟨ids, hids, h⟩ := audit_bind.mp h
    obtain ⟨⟨⟩, horder, h⟩ := audit_bind.mp h
    obtain ⟨⟨⟩, hproposal, h⟩ := audit_bind.mp h
    obtain ⟨⟨⟩, hlength, -⟩ := audit_bind.mp h
    have hparse := audit_ofPy.mp hv
    have hclosed := audit_ofPy.mp hobj
    obtain rfl := closed_eq_ok hclosed
    obtain ⟨-, hordered, -⟩ := parse_eq_ok.mp hparse
    obtain ⟨hlist, -, hhigh⟩ := listBetween_eq_ok.mp (audit_ofPy.mp hvotes)
    have hvs : ∀ v ∈ votes, Ordered v := by
      have hget : Ordered (obj.get shape'.votes) := ordered_get hordered
      rw [hlist] at hget
      exact objectsItems_iff.mp hget
    have hlow : 3 ≤ votes.length := by
      by_contra hlt
      rw [if_pos (by omega)] at hlength
      cases hlength
    obtain ⟨ms, rfl, hms, hall, rfl, hnodup⟩ := (checkVotes_eq_ok hvs nodup_seen).mp hids
    obtain ⟨t, ht, hexact, hstep, hnil⟩ :=
      exact_of_commitment ctx (ordered_get hordered) (audit_ofPy.mp hcommitment)
    have htsorted : (t.map Prod.fst).Pairwise (· < ·) := by
      have hget : Ordered (obj.get "commitment") := ordered_get hordered
      rw [ht] at hget
      exact hget.1
    have htself : (Value.dict t).pyEq (.dict t) = true :=
      (Value.pyEq_sorted_iff htsorted htsorted).mpr
        ⟨rfl, fun k _ => Value.pyEq_self (Dict.isExact_get hexact k)⟩
    have hcommitments : ∀ m ∈ ms, m.payload.commitment ctx = t := fun m hm =>
      Dict.eq_of_pyEq (sorted_commitment ctx _) htsorted htsorted (exact_commitment ctx _) hexact
        (ht ▸ hall m hm) htself
    rw [List.length_map] at hlow hhigh
    obtain ⟨m, hm⟩ : ∃ m, m ∈ ms := List.exists_mem_of_length_pos (by omega)
    obtain rfl := (hcommitments m hm).symm
    have hproposal' : shape'.proposal = true → obj.get "proposal" ≠ .null ∧
        ∃ p : SignedMessage, p.Signed crypto ctx ∧ obj.get "proposal" = .dict (p.toDict ctx) ∧
          p.payload.step.isPropose = true ∧
          without (p.payload.commitment ctx) ["step", "valid_round"] =
            without (m.payload.commitment ctx) ["step"] := by
      intro hp
      rw [if_pos hp, ht] at hproposal
      obtain ⟨p, hp, hvalue, hcontext⟩ :=
        (verifier_checkProposal (ordered_get hordered)).mp hproposal
      exact ⟨by rw [hvalue]; nofun, p, hp, hvalue, hcontext⟩
    refine ⟨obj, ms, _, hparse, ?_, ht⟩
    exact {
      fields := by
        refine closed_append.mpr ⟨hclosed, fun k hk => ?_⟩
        split at hk
        · next hp =>
          obtain rfl := List.mem_singleton.mp hk
          exact mem_keys_of_get (hproposal' hp).1
        · cases hk
      number := require_eq_ok.mp (audit_ofPy.mp hsame) ▸
        (uint_eq_ok.mp (audit_ofPy.mp hnumber)).1
      votes := hlist
      signed := hms
      count := ⟨hlow, hhigh⟩
      order := by
        have horder := require_eq_ok.mp (audit_ofPy.mp horder)
        exact (insertionSort_eq_iff (by simpa using hnodup)).mp (by simpa using horder)
      commitment := hcommitments
      step := hstep
      proposal := fun hp => ⟨hnil hp, (hproposal' hp).2⟩ }
  · rintro ⟨obj, ms, t, hparse, h, ht⟩
    have hnumber := shape_number (shapeOf_eq_ok hshape)
    have hcount := h.count
    obtain ⟨-, hordered, -⟩ := parse_eq_ok.mp hparse
    obtain ⟨m, hm⟩ : ∃ m, m ∈ ms := List.exists_mem_of_length_pos (by omega)
    obtain rfl := (h.commitment m hm).symm
    have hself : (Value.dict (m.payload.commitment ctx)).pyEq
        (.dict (m.payload.commitment ctx)) = true :=
      (Value.pyEq_sorted_iff (sorted_commitment ctx _) (sorted_commitment ctx _)).mpr
        ⟨rfl, fun k _ => Value.pyEq_self (Dict.isExact_get (exact_commitment ctx _) k)⟩
    obtain ⟨hname, -, -, -, -, -, -, -, -, hhash⟩ := get_commitment ctx m.payload
    have hstep := h.step
    rw [hname] at hstep
    have hpropose : m.payload.step.isPropose = false := by
      obtain rfl | rfl := shapeOf_eq_ok hshape <;> cases hs : m.payload.step <;>
        simp [hs, Step.name, Step.isPropose, pvShape, q4Shape] at hstep ⊢
    have hcommitment : commitment ctx (.dict (m.payload.commitment ctx)) shape = .ok () := by
      refine commitment_of_valid ctx (h.signed m hm).1.payload hpropose (Value.str.inj hstep) ?_
      intro hp
      have hnull := (h.proposal hp).1
      rw [hhash] at hnull
      exact optionText_eq_null.not.mp hnull
    have hvs : ∀ v ∈ ms.map fun m => Value.dict (m.toDict ctx), Ordered v := by
      rintro v hv
      obtain ⟨m', -, rfl⟩ := List.mem_map.mp hv
      exact ordered_signed ctx m'
    have hvotes : listBetween (obj.get shape.votes) 0 4 "proof_count_bound" =
        .ok (ms.map fun m => .dict (m.toDict ctx)) :=
      listBetween_eq_ok.mpr ⟨h.votes, by omega, by simpa using hcount.2⟩
    have hnodup : (ms.map fun m => m.payload.validatorId).Nodup := h.order.imp ne_of_lt
    have hloop : ∀ work, (checkVotes crypto ctx (.dict (m.payload.commitment ctx)) []
        (ms.map fun m => .dict (m.toDict ctx)) work).1 =
        .ok (ms.map fun m => m.payload.validatorId) := fun work =>
      (checkVotes_eq_ok hvs nodup_seen).mpr ⟨ms, rfl, h.signed,
        fun m' hm' => by rwa [h.commitment m' hm'], rfl, hnodup⟩
    have hproposal : ∀ work, ((if shape.proposal = true then
        checkProposal crypto ctx (obj.get "proposal") (.dict (m.payload.commitment ctx))
        else pure ()) work).1 = .ok () := by
      intro work
      split
      · next hp => exact (verifier_checkProposal (ordered_get hordered)).mpr (h.proposal hp).2
      · rfl
    refine ⟨obj, audit_bind.mpr ⟨shape, audit_ofPy.mpr hshape, audit_bind.mpr
      ⟨_, audit_ofPy.mpr hparse, audit_bind.mpr
        ⟨obj, audit_ofPy.mpr (closed_append.mp h.fields).1, audit_bind.mpr
          ⟨_, audit_ofPy.mpr (uint_eq_ok.mpr ⟨h.number, hnumber⟩), audit_bind.mpr
            ⟨(), audit_ofPy.mpr (require_pos rfl), ?_⟩⟩⟩⟩⟩⟩
    simp only [ht]
    refine audit_bind.mpr ⟨(), audit_ofPy.mpr hcommitment, audit_bind.mpr
      ⟨_, audit_ofPy.mpr hvotes, audit_bind.mpr ⟨_, hloop _, audit_bind.mpr
        ⟨(), audit_ofPy.mpr (require_pos ((insertionSort_eq_iff hnodup).mpr h.order)),
          audit_bind.mpr ⟨(), hproposal _, audit_bind.mpr ⟨(), ?_, rfl⟩⟩⟩⟩⟩⟩
    rw [if_neg (by simpa using hcount.1)]
    rfl

/-! ## The two verifiers -/

/-- No field of a commitment is a JSON boolean. -/
def NoBoolean (t : Value) : Prop := ∀ d : Dict, t = .dict d → ∀ e ∈ d, ∀ b, e.2 ≠ .bool b

/-- Where the votes and the proposal of a byte string certify a commitment that equals the
stated one, no field of the stated one is a JSON boolean. -/
def StatesNumbers (crypto : Crypto) (ctx : Context) (raw : ByteArray) (kind : ProofKind) : Prop :=
  ∀ (shape : Shape) (obj : Dict) (ms : List SignedMessage) (t : Dict), shapeOf kind = .ok shape →
    parse raw kind.limit = .ok (.dict obj) → Certified crypto ctx shape obj ms t →
    (Value.dict t).pyEq (obj.get "commitment") = true → NoBoolean (obj.get "commitment")

theorem proof_eq_ok {shape : Shape} {kind : ProofKind} (hshape : shapeOf kind = .ok shape)
    {raw : ByteArray} {obj : Dict} :
    proof crypto raw ctx kind = .ok obj ↔ parse raw kind.limit = .ok (.dict obj) ∧
      ∃ ms t, Certified crypto ctx shape obj ms t ∧
        (Value.dict t).pyEq (obj.get "commitment") = true := by
  have hproof : proof crypto raw ctx kind =
      parse raw kind.limit >>= Bft.certificate crypto ctx shape := by
    cases kind <;> cases hshape <;> rfl
  rw [hproof, bind_eq_ok]
  constructor
  · rintro ⟨v, hv, h⟩
    obtain ⟨d, hd, hout⟩ := bind_eq_ok.mp h
    have hobj : d = obj := by
      obtain ⟨_, -, hout⟩ := bind_eq_ok.mp hout
      obtain ⟨_, -, hout⟩ := bind_eq_ok.mp hout
      obtain ⟨_, -, hout⟩ := bind_eq_ok.mp hout
      obtain ⟨_, -, hout⟩ := bind_eq_ok.mp hout
      obtain ⟨_, -, hout⟩ := bind_eq_ok.mp hout
      obtain ⟨_, -, hout⟩ := bind_eq_ok.mp hout
      obtain ⟨_, -, hout⟩ := bind_eq_ok.mp hout
      obtain ⟨_, -, hout⟩ := bind_eq_ok.mp hout
      exact Except.ok.inj hout
    obtain rfl := closed_eq_ok hd
    subst hobj
    obtain ⟨-, hordered, -⟩ := parse_eq_ok.mp hv
    exact ⟨hv, (certificate_eq_ok (shapeOf_eq_ok hshape) hordered).mp h⟩
  · rintro ⟨hv, h⟩
    obtain ⟨-, hordered, -⟩ := parse_eq_ok.mp hv
    exact ⟨_, hv, (certificate_eq_ok (shapeOf_eq_ok hshape) hordered).mpr h⟩

/-- A commitment without booleans that equals the certified one is the certified one. -/
theorem stated_eq {shape : Shape} {raw : ByteArray} {limit : Nat} {obj t : Dict}
    {ms : List SignedMessage} (hv : parse raw limit = .ok (.dict obj))
    (h : Certified crypto ctx shape obj ms t)
    (heq : (Value.dict t).pyEq (obj.get "commitment") = true)
    (hbool : NoBoolean (obj.get "commitment")) : obj.get "commitment" = .dict t := by
  obtain ⟨-, hordered, hJ⟩ := parse_eq_ok.mp hv
  have hcount := h.count
  obtain ⟨m, hm⟩ : ∃ m, m ∈ ms := List.exists_mem_of_length_pos (by omega)
  obtain rfl := (h.commitment m hm).symm
  have hstated : Ordered (obj.get "commitment") := ordered_get hordered
  obtain ⟨s, hs⟩ := dict_of_pyEq heq
  have hjson : jsonValue 1 (.dict s) = .ok () := by
    obtain ⟨⟨⟩, -, hcanonical⟩ := bind_eq_ok.mp hJ
    obtain ⟨⟨⟩, hjson, -⟩ := bind_eq_ok.mp hcanonical
    obtain ⟨⟨⟩, -, hentries⟩ := bind_eq_ok.mp hjson
    cases hget : Dict.get? obj "commitment" with
    | none =>
      rw [Dict.get, hget] at hs
      cases hs
    | some w =>
      rw [Dict.get, hget] at hs
      obtain rfl : w = .dict s := hs
      exact (jsonEntries_eq_ok.mp hentries _ (Dict.mem_of_get? hget)).2
  rw [hs] at hbool heq hstated ⊢
  have hexact : ∀ x ∈ s, x.2.isExact = true := by
    intro x hx
    obtain ⟨⟨⟩, -, hentries⟩ := bind_eq_ok.mp hjson
    have hchecked := (jsonEntries_eq_ok.mp hentries x hx).2
    obtain ⟨hkeys, hitems⟩ := (Value.pyEq_sorted_iff (sorted_commitment ctx _) hstated.1).mp heq
    have hitem := hitems x.1 (hkeys ▸ List.mem_map_of_mem hx)
    rw [s.get_eq, Dict.get?_of_mem (hstated.1.imp ne_of_lt) hx] at hitem
    have hx' := Dict.isExact_get (exact_commitment ctx m.payload) x.1
    have hnot := hbool s rfl x hx
    revert hitem hchecked hnot
    show _ → (Value.pyEq _ x.2 = true) → _
    cases hv : (m.payload.commitment ctx).get x.1 <;> rw [hv] at hx' <;> cases hx' <;>
      cases x.2 <;> simp [Value.pyEq, Value.isExact, jsonValue, Value.number?]
  have hself : (Value.dict s).pyEq (.dict s) = true :=
    (Value.pyEq_sorted_iff hstated.1 hstated.1).mpr
      ⟨rfl, fun k _ => Value.pyEq_self (Dict.isExact_get hexact k)⟩
  exact congrArg Value.dict (Dict.eq_of_pyEq hstated.1 (sorted_commitment ctx _) hstated.1 hexact
    (exact_commitment ctx _) hself heq)

theorem noBoolean_commitment (p : Payload) : NoBoolean (.dict (p.commitment ctx)) := by
  intro d hd e he b hb
  obtain rfl := Value.dict.inj hd
  have hexact := exact_commitment ctx p e he
  rw [hb] at hexact
  cases hexact

/-- The two verifiers agree on a byte string exactly when it states numbers as numbers. -/
theorem agree_iff {shape : Shape} {kind : ProofKind} (hshape : shapeOf kind = .ok shape)
    {raw : ByteArray} :
    ((∃ obj, proof crypto raw ctx kind = .ok obj) ↔
      ∃ r, verifyQuorum crypto ctx raw kind = .ok r ∧ r.outcome = .validQuorum) ↔
    StatesNumbers crypto ctx raw kind := by
  rw [verifyQuorum_valid_iff, verifier_eq_ok hshape]
  simp only [proof_eq_ok hshape]
  constructor
  · intro hagree shape' obj ms t hshape' hv h heq
    obtain rfl := Except.ok.inj (hshape'.symm.trans hshape)
    obtain ⟨obj', ms', t', hv', h', hstated⟩ := hagree.mp ⟨obj, hv, ms, t, h, heq⟩
    obtain rfl := Value.dict.inj (Except.ok.inj (hv.symm.trans hv'))
    have hcount := h'.count
    obtain ⟨m, hm⟩ : ∃ m, m ∈ ms' := List.exists_mem_of_length_pos (by omega)
    rw [hstated, ← h'.commitment m hm]
    exact noBoolean_commitment m.payload
  · intro hnumbers
    constructor
    · rintro ⟨obj, hv, ms, t, h, heq⟩
      exact ⟨obj, ms, t, hv, h, stated_eq hv h heq (hnumbers shape obj ms t hshape hv h heq)⟩
    · rintro ⟨obj, ms, t, hv, h, hstated⟩
      have hcount := h.count
      obtain ⟨m, hm⟩ : ∃ m, m ∈ ms := List.exists_mem_of_length_pos (by omega)
      obtain rfl := (h.commitment m hm).symm
      refine ⟨obj, hv, ms, _, h, ?_⟩
      rw [hstated]
      exact (Value.pyEq_sorted_iff (sorted_commitment ctx _) (sorted_commitment ctx _)).mpr
        ⟨rfl, fun k _ => Value.pyEq_self (Dict.isExact_get (exact_commitment ctx _) k)⟩

theorem allExactEntries_iff {es : List (String × Value)} :
    Value.allExactEntries es = true ↔ ∀ e ∈ es, e.2.allExact = true := by
  induction es with
  | nil => exact ⟨fun _ => nofun, fun _ => rfl⟩
  | cons e es ih => simp [Value.allExactEntries, ih]

theorem allExactItems_iff {xs : List Value} :
    Value.allExactItems xs = true ↔ ∀ x ∈ xs, x.allExact = true := by
  induction xs with
  | nil => exact ⟨fun _ => nofun, fun _ => rfl⟩
  | cons x xs ih => simp [Value.allExactItems, ih]

theorem allExact_of_isExact {v : Value} (hv : v.isExact = true) : v.allExact = true := by
  cases v <;> cases hv <;> rfl

theorem allExact_commitment (p : Payload) : (Value.dict (p.commitment ctx)).allExact = true :=
  allExactEntries_iff.mpr fun e he => allExact_of_isExact (exact_commitment ctx p e he)

theorem allExact_signed (m : SignedMessage) : (Value.dict (m.toDict ctx)).allExact = true := by
  have hpayload : (Value.dict (m.payload.toDict ctx)).allExact = true := by
    refine allExactEntries_iff.mpr fun e he => ?_
    simp only [Payload.toDict, List.mem_append] at he
    have hcommitment := fun h => allExact_of_isExact (exact_commitment ctx m.payload e h)
    simp only [Payload.commitment, List.mem_append] at hcommitment
    simp only [List.mem_cons, List.not_mem_nil, or_false] at he hcommitment
    rcases he with he | rfl | rfl | rfl
    · exact hcommitment (Or.inl he)
    all_goals rfl
  simp [Value.allExact, Value.allExactEntries, SignedMessage.toDict, Payload.envelope,
    show Value.allExactEntries (m.payload.toDict ctx) = true from hpayload]

/-- An accepted object without booleans is exact all through. -/
theorem allExact_certified {shape : Shape} {obj t : Dict} {ms : List SignedMessage}
    (hobj : Ordered (.dict obj)) (h : Certified crypto ctx shape obj ms t)
    (hstated : obj.get "commitment" = .dict t) : (Value.dict obj).allExact = true := by
  have hcount := h.count
  obtain ⟨m, hm⟩ : ∃ m, m ∈ ms := List.exists_mem_of_length_pos (by omega)
  obtain rfl := (h.commitment m hm).symm
  refine allExactEntries_iff.mpr fun e he => ?_
  have hvalue : obj.get e.1 = e.2 := by
    rw [Dict.get, Dict.get?_of_mem (hobj.1.imp ne_of_lt) he]
    rfl
  have hkey : e.1 ∈ [shape.version, "commitment", shape.votes] ++
      if shape.proposal then ["proposal"] else [] := by
    obtain ⟨⟨⟩, hkeys, -⟩ := bind_eq_ok.mp h.fields
    have hall := List.all_eq_true.mp (require_eq_ok.mp hkeys).2 e.1 (List.mem_map_of_mem he)
    rwa [List.append_nil, List.contains_iff_mem] at hall
  rw [← hvalue]
  obtain hkey | hkey := List.mem_append.mp hkey
  · simp only [List.mem_cons, List.not_mem_nil, or_false] at hkey
    obtain hkey | hkey | hkey := hkey
    · rw [hkey, h.number]
      rfl
    · rw [hkey, hstated]
      exact allExact_commitment m.payload
    · rw [hkey, h.votes]
      refine allExactItems_iff.mpr fun x hx => ?_
      obtain ⟨m', -, rfl⟩ := List.mem_map.mp hx
      exact allExact_signed m'
  · split at hkey
    · next hp =>
      obtain ⟨-, p, -, hproposal, -⟩ := h.proposal hp
      rw [List.mem_singleton.mp hkey, hproposal]
      exact allExact_signed p
    · cases hkey

/-- On the byte strings that state numbers as numbers, the two verifiers agree, and equal
certificates have one encoding. On any other byte string they differ. -/
theorem agree_iff_statesNumbers (crypto : Crypto) (ctx : Context) {kind : ProofKind}
    (hkind : kind = .pv ∨ kind = .q4) :
    (∀ raw, ((∃ obj, proof crypto raw ctx kind = .ok obj) ↔
      ∃ r, verifyQuorum crypto ctx raw kind = .ok r ∧ r.outcome = .validQuorum) ↔
      StatesNumbers crypto ctx raw kind) ∧
    ∀ raw raw' obj obj', proof crypto raw ctx kind = .ok obj →
      proof crypto raw' ctx kind = .ok obj' → StatesNumbers crypto ctx raw kind →
      StatesNumbers crypto ctx raw' kind → (Value.dict obj).pyEq (.dict obj') = true →
      raw = raw' := by
  obtain ⟨shape, hshape⟩ : ∃ shape, shapeOf kind = .ok shape := by
    obtain rfl | rfl := hkind
    · exact ⟨pvShape, rfl⟩
    · exact ⟨q4Shape, rfl⟩
  refine ⟨fun raw => agree_iff hshape, ?_⟩
  intro raw raw' obj obj' h h' hnumbers hnumbers' heq
  obtain ⟨hv, ms, t, hcertified, hstated⟩ := (proof_eq_ok hshape).mp h
  obtain ⟨hv', ms', t', hcertified', hstated'⟩ := (proof_eq_ok hshape).mp h'
  obtain ⟨-, hordered, hJ⟩ := parse_eq_ok.mp hv
  obtain ⟨-, hordered', hJ'⟩ := parse_eq_ok.mp hv'
  have hexact := allExact_certified hordered hcertified (stated_eq hv hcertified hstated
    (hnumbers shape obj ms t hshape hv hcertified hstated))
  have hexact' := allExact_certified hordered' hcertified' (stated_eq hv' hcertified' hstated'
    (hnumbers' shape obj' ms' t' hshape hv' hcertified' hstated'))
  have hsame := eq_of_pyEq hexact hexact' hordered hordered' heq
  rw [hsame] at hJ
  exact Except.ok.inj (hJ.symm.trans hJ')

/-! ## A certificate with `true` in the place of 1 -/

/-- A text of one character. -/
def repeated (n : Nat) (c : Char) : String := String.ofList (List.replicate n c)

def sampleId (c : Char) : String := String.ofList ('0' :: 'x' :: List.replicate 40 c)

/-- A context whose members have short keys. -/
def sampleContext : Context where
  network := "task717k-test"
  genesisHash := repeated 64 '0'
  profileDigest := repeated 64 'a'
  setCommitment := repeated 64 'c'
  members := [(sampleId '1', "k1"), (sampleId '2', "k2"), (sampleId '3', "k3"),
    (sampleId '4', "k4")]
  length_members := rfl
  nodup_ids := by decide +kernel

/-- Recovery of the key that a signature names. -/
def sampleCrypto : Crypto where
  sha256Hex _ := repeated 64 '0'
  keccak raw := raw
  recoverKey sig _ := if sig[31]? = some 1 then some "k1" else if sig[31]? = some 2 then some "k2"
    else if sig[31]? = some 3 then some "k3" else none

/-- A prevote for no block. -/
def sampleMessage (c : Char) : SignedMessage where
  payload := ⟨.prevote, 1, 0, repeated 64 '0', none, sampleId c⟩
  signature := String.ofList ('0' :: 'x' :: (List.replicate 63 '0' ++ c ::
    (List.replicate 63 '0' ++ ['1', '1', 'b'])))

def sampleMessages : List SignedMessage :=
  [sampleMessage '1', sampleMessage '2', sampleMessage '3']

/-- The commitment of the votes, with this for its message version. -/
def sampleStated (version : Value) : Dict :=
  [("agreement_profile_digest", .str (repeated 64 'a')), ("block_hash", .null),
    ("block_height", .int 1), ("genesis_hash", .str (repeated 64 '0')),
    ("message_version", version), ("parent_hash", .str (repeated 64 '0')), ("round", .int 0),
    ("step", .str "prevote"), ("validator_epoch", .int 0),
    ("validator_set_commitment", .str (repeated 64 'c'))]

/-- The certificate of three votes with a stated commitment. -/
def sampleObject (version : Value) : Dict :=
  [("certificate_version", .int 1), ("commitment", .dict (sampleStated version)),
    ("votes", .list (sampleMessages.map fun m => .dict (m.toDict sampleContext)))]

theorem isHash_repeated {c : Char} (hc : isLowerHex c = true) : isHash (repeated 64 c) := by
  simp [isHash, isHexAfter, repeated, hc]

theorem sampleMessage_signed {c : Char} (hc : c ∈ ['1', '2', '3']) :
    (sampleMessage c).Signed sampleCrypto sampleContext := by
  have hctx : sampleContext.PlainNetwork := by
    constructor <;> decide
  have hhash : isHash (repeated 64 '0') := isHash_repeated (by decide)
  have hid : isHexAfter "0x" 40 (sampleId c) = true := by
    simp only [List.mem_cons, List.not_mem_nil, or_false] at hc
    obtain rfl | rfl | rfl := hc <;> decide +kernel
  have hkey : sampleCrypto.recoverKey (recoverableSignature (sampleMessage c).signature) .empty =
      sampleContext.members.get? (sampleId c) ∧
      (sampleContext.members.get? (sampleId c)).isSome = true ∧
      CanonicalV3.signature (.str (sampleMessage c).signature) =
        .ok (sampleMessage c).signature := by
    simp only [List.mem_cons, List.not_mem_nil, or_false] at hc
    obtain rfl | rfl | rfl := hc <;> decide +kernel
  have hvalid : (sampleMessage c).payload.Valid sampleContext := {
    height := (by decide : (1 : Int) ≤ 1 ∧ (1 : Int) ≤ maxUint)
    round := (by decide : (0 : Int) ≤ 0 ∧ (0 : Int) ≤ maxRound)
    context := ⟨hhash, isHash_repeated (by decide), isHash_repeated (by decide)⟩
    parentHash := hhash
    parent := fun _ => rfl
    blockHash := nofun
    validatorId := hid
    member := hkey.2.1
    proposal := nofun }
  obtain ⟨raw, hJ, hsize⟩ := J_of_fits (ordered_envelope sampleContext _)
    (fits_envelope hctx hvalid (by decide : 0 + 1 < maxDepth))
  exact signed_of_valid hctx ⟨hvalid, hkey.2.2, raw, hJ, le_trans hsize (by decide), hkey.1⟩

theorem sample_plainNetwork : sampleContext.PlainNetwork := by
  constructor <;> decide

/-- The certificate is accepted when its message version equals 1. -/
theorem sampleObject_parsed {version : Value} (hversion : Ordered version)
    (hfits : Fits 2 4 version) : ∃ raw, parse raw ProofKind.pv.limit =
      .ok (.dict (sampleObject version)) := by
  have hhash : ∀ c, isLowerHex c = true → Fits 2 66 (.str (repeated 64 c)) := fun c hc =>
    fits_hash (isHash_repeated hc)
  have hnumber : ∀ m : Int, 0 ≤ m ∧ m ≤ 1 → Fits 2 1 (.int m) := fun m hm =>
    fits_number (by decide) hm (by decide) (by decide)
  have hstated : Fits 1 700 (.dict (sampleStated version)) := by
    have hall : List.Forall₂ (EntryFits 2) (sampleStated version)
        [94, 18, 17, 82, 23, 81, 10, 17, 20, 94] :=
      .cons (entryFits (by decide) (hhash 'a' (by decide)) (by decide)) <|
      .cons (entryFits (by decide) (fits_null 2) (by decide)) <|
      .cons (entryFits (by decide) (hnumber 1 (by decide)) (by decide)) <|
      .cons (entryFits (by decide) (hhash '0' (by decide)) (by decide)) <|
      .cons (entryFits (by decide) hfits (by decide)) <|
      .cons (entryFits (by decide) (hhash '0' (by decide)) (by decide)) <|
      .cons (entryFits (by decide) (hnumber 0 (by decide)) (by decide)) <|
      .cons (entryFits (by decide) (fits_text (n := 7) (by decide) (by decide) (by decide))
        (by decide)) <|
      .cons (entryFits (by decide) (hnumber 0 (by decide)) (by decide)) <|
      .cons (entryFits (by decide) (hhash 'c' (by decide)) (by decide)) .nil
    exact fits_dict (by simp [sampleStated]) (by decide) hall (by decide) (by decide)
  have hvotes : Fits 1 3604
      (.list (sampleMessages.map fun m => .dict (m.toDict sampleContext))) := by
    refine fits_list (m := 1200) (by simp [sampleMessages]) (by decide) ?_ (by decide)
    intro x hx
    obtain ⟨m, hm, rfl⟩ := List.mem_map.mp hx
    obtain ⟨c, hc, rfl⟩ : ∃ c ∈ ['1', '2', '3'], sampleMessage c = m := List.mem_map.mp hm
    exact fits_signed sample_plainNetwork (sampleMessage_signed hc).1 (by decide)
  have hobject : Fits 0 4352 (.dict (sampleObject version)) := by
    have hall : List.Forall₂ (EntryFits 1) (sampleObject version) [24, 714, 3613] :=
      .cons (entryFits (by decide) (fits_number (k := 1) (m := 1) (by decide)
        (by decide : (0 : Int) ≤ 1 ∧ (1 : Int) ≤ 1) (by decide) (by decide)) (by decide)) <|
      .cons (entryFits (by decide) hstated (by decide)) <|
      .cons (entryFits (by decide) hvotes (by decide)) .nil
    exact fits_dict (by simp [sampleObject]) (by decide) hall (by decide) (by decide)
  have hordered : Ordered (.dict (sampleObject version)) := by
    refine ⟨show ["certificate_version", "commitment", "votes"].Pairwise (· < ·) by decide +kernel,
      trivial, ⟨?_, ?_⟩, ?_, trivial⟩
    · show ["agreement_profile_digest", "block_hash", "block_height", "genesis_hash",
        "message_version", "parent_hash", "round", "step", "validator_epoch",
        "validator_set_commitment"].Pairwise (· < ·)
      decide +kernel
    · exact ⟨trivial, trivial, trivial, trivial, hversion, trivial, trivial, trivial, trivial,
        trivial, trivial⟩
    · refine objectsItems_iff.mpr fun x hx => ?_
      obtain ⟨m, -, rfl⟩ := List.mem_map.mp hx
      exact ordered_signed sampleContext m
  obtain ⟨raw, hJ, hsize⟩ := J_of_fits hordered hobject
  exact ⟨raw, parse_eq_ok.mpr ⟨le_trans hsize (by decide), hordered, hJ⟩⟩

theorem sampleObject_certified (version : Value) :
    Certified sampleCrypto sampleContext pvShape (sampleObject version) sampleMessages
      (sampleStated (.int 1)) where
  fields := closed_of_keys fun k => Iff.rfl
  number := by
    simp [sampleObject, pvShape, Dict.get, Dict.get?_cons]
  votes := by
    simp [sampleObject, pvShape, Dict.get, Dict.get?_cons]
  signed := by
    intro m hm
    obtain ⟨c, hc, rfl⟩ : ∃ c ∈ ['1', '2', '3'], sampleMessage c = m := List.mem_map.mp hm
    exact sampleMessage_signed hc
  count := by decide
  order := by
    show [sampleId '1', sampleId '2', sampleId '3'].Pairwise (· < ·)
    decide +kernel
  commitment := by
    intro m hm
    obtain ⟨c, hc, rfl⟩ : ∃ c ∈ ['1', '2', '3'], sampleMessage c = m := List.mem_map.mp hm
    rfl
  step := by
    simp [sampleStated, pvShape, Dict.get, Dict.get?_cons]
  proposal := nofun

theorem get_sampleObject (version : Value) :
    (sampleObject version).get "commitment" = .dict (sampleStated version) := by
  simp [sampleObject, Dict.get, Dict.get?_cons]

/-- `wire.proof` accepts a commitment that states `true` for 1, `verify_quorum` does not. -/
theorem proof_not_quorum : ∃ raw, parse raw ProofKind.pv.limit =
      .ok (.dict (sampleObject (.bool true))) ∧
    (∃ obj, proof sampleCrypto raw sampleContext .pv = .ok obj) ∧
    ¬∃ r, verifyQuorum sampleCrypto sampleContext raw .pv = .ok r ∧ r.outcome = .validQuorum := by
  obtain ⟨raw, hparse⟩ := sampleObject_parsed (show Ordered (.bool true) from trivial)
    ⟨rfl, rfl, by decide⟩
  have hequal : (Value.dict (sampleStated (.int 1))).pyEq
      ((sampleObject (.bool true)).get "commitment") = true := by
    rw [get_sampleObject]
    decide +kernel
  have hcertified := sampleObject_certified (.bool true)
  have hproof := (proof_eq_ok rfl).mpr ⟨hparse, sampleMessages, _, hcertified, hequal⟩
  refine ⟨raw, hparse, ⟨_, hproof⟩, fun hquorum => ?_⟩
  have hnumbers : StatesNumbers sampleCrypto sampleContext raw .pv :=
    (agree_iff rfl).mp ⟨fun _ => hquorum, fun _ => ⟨_, hproof⟩⟩
  have hnone := hnumbers _ _ _ _ rfl hparse hcertified hequal
  rw [get_sampleObject] at hnone
  exact hnone _ rfl ("message_version", .bool true) (by simp [sampleStated]) true rfl

theorem agree_iff_statesNumbers_sample : ∃ raw,
    ((∃ obj, proof sampleCrypto raw sampleContext .pv = .ok obj) ↔
      ∃ r, verifyQuorum sampleCrypto sampleContext raw .pv = .ok r ∧ r.outcome = .validQuorum) ∧
    (∃ obj, proof sampleCrypto raw sampleContext .pv = .ok obj) ∧ raw = raw := by
  obtain ⟨raw, hparse⟩ := sampleObject_parsed (show Ordered (.int 1) from trivial)
    ⟨rfl, rfl, by decide⟩
  have hstated := get_sampleObject (.int 1)
  have hnumbers : StatesNumbers sampleCrypto sampleContext raw .pv := by
    intro shape obj ms t _ hobj _ _
    obtain rfl := Value.dict.inj (Except.ok.inj (hparse.symm.trans hobj))
    rw [hstated]
    show NoBoolean (.dict ((sampleMessage '1').payload.commitment sampleContext))
    exact noBoolean_commitment _
  have hself :
      (Value.dict (sampleObject (.int 1))).pyEq (.dict (sampleObject (.int 1))) = true := by
    decide +kernel
  have hproof := (proof_eq_ok rfl).mpr ⟨hparse, sampleMessages, _, sampleObject_certified (.int 1),
    by rw [hstated]; decide +kernel⟩
  have h := agree_iff_statesNumbers sampleCrypto sampleContext
    (Or.inl rfl : ProofKind.pv = .pv ∨ ProofKind.pv = .q4)
  exact ⟨raw, (h.1 raw).mpr hnumbers, ⟨_, hproof⟩,
    h.2 raw raw _ _ hproof hproof hnumbers hnumbers hself⟩

end Verifier

end Bft

end ZoidbergChain
