import ZoidbergChain.CanonicalV3.IssuedBlock

/-!
# Capacity and construction

canonical_v3/admission.py and canonical_v3/construction.py: the capacity that an admission
reserves, and the construction of a candidate record from it.

- `blockSize`: valid payloads fit the budgets, the analytic bound, and what has been reserved.
-/

namespace ZoidbergChain

open Python

namespace CanonicalV3

/-! ## Capacity -/

/-- `CapacityReservation`. -/
structure CapacityReservation where
  originalSize : Nat
  identityPayload : Nat
  descriptorBound : Nat
  completeBound : Nat
  certificateCap : Nat := 196608
  nativeArrayCap : Nat := 98304
  nativeCount : Nat := 10
  restCap : Nat := 32768
  deriving DecidableEq

/-- `reserve_identity`. -/
def reserveIdentity (originalSize : Nat) (mime : String) : Py CapacityReservation := do
  require (mime ∈ mimes) (v3Error "mime_type")
  require (1 ≤ originalSize ∧ originalSize ≤ maxOriginal mime) (v3Error "original_size")
  let payload := 4 * ((originalSize + 2) / 3)
  let total := conservativeSizeBound - 4 * ((maxImage + 2) / 3) + payload
  require (total ≤ maxRecord) (v3Error "identity_reservation_exceeds_block")
  .ok { originalSize, identityPayload := payload, descriptorBound := payload + 231,
        completeBound := total }

/-- `PreparedAdmission`, as `AdmissionAdapter.prepare` issues it: the descriptor that `produce`
has returned for an original of a type, and the capacity that has been reserved for them. -/
structure PreparedAdmission (crypto : Crypto) where
  original : List UInt8
  mime : String
  descriptorBytes : ByteArray
  certificateBytes : ByteArray
  capacity : CapacityReservation
  reserved : reserveIdentity original.length mime = .ok capacity
  produced : ∃ workers v outcome, produce crypto workers original mime = .ok (some v, outcome) ∧
    canonical v = .ok descriptorBytes

/-! ## Construction -/

/-- `Failure`. -/
inductive Failure where
  | invalidAdmission
  | invalidCanonical
  | incomplete
  | localFailure
  deriving DecidableEq

/-- `IntegrationError`. -/
structure IntegrationError where
  classification : Failure
  code : Option String
  outcome : Option Outcome := none

/-- `ConstructionState`: the resolver may raise, and may not know a status. -/
structure ConstructionState where
  parentIndex : Value
  parentHash : Value
  parentTimestamp : Value
  rewardPoolUnits : Value
  balances : Dict
  nextNonces : Dict
  reviewerStatus : String → Int → String → Except Unit (Option String)

/-- What `construct` is given besides the admission; a missing argument is `none`. -/
structure Evidence where
  certificate : Option Value
  state : Option ConstructionState
  nativeTransactions : Option Value

/-- What the construction ends in, short of an error. -/
inductive Construction where
  | incomplete (missing : List String)
  | candidate (record : ByteArray) (sizes : Sizes) (identityReservation : Nat)

/-- The calls of the `try` block: a `V3Error` or a `KeyError` is an invalid construction. -/
def attempt {α : Type} (x : Py α) : Except IntegrationError α :=
  match x with
  | .ok a => .ok a
  | .error e => .error ⟨.invalidCanonical, some (e.code.getD "invalid_construction"), none⟩

/-- The checks of an argument that may be missing. -/
def attemptGiven (check : Value → Py Value) : Option Value → Except IntegrationError (Option Value)
  | none => .ok none
  | some v => (attempt (check v)).map some

/-- `header` after its checks: `parse(canonical(header))`. -/
def checkedHeader (header : Value) (mime : String) : Py Value := do
  let _ ← closed header
    ["index", "previous_hash", "timestamp", "minted_at", "miner", "content_type"] ["meme_text"]
  let raw ← canonical header
  let header ← parse raw maxRecord
  let _ ← uint (header.field "index") 1 maxUint
  let _ ← h64 (header.field "previous_hash")
  let _ ← seconds (header.field "timestamp")
  let _ ← seconds (header.field "minted_at")
  let _ ← pattern (header.field "miner") (isHexAfter "" 66)
  let _ ← oneOf (header.field "content_type")
    (if mime = "text/plain" then ["text"] else ["image", "mixed"]) "content_type"
  (if header.has "meme_text" then do
    require (mime ≠ "text/plain") (v3Error "text_caption")
    let _ ← nonemptyText (header.field "meme_text") 1000 4096
  else .ok ())
  .ok header

/-- The certificate after its checks against the certificate of the application. -/
def checkedCertificate (crypto : Crypto) (ctx : Context) (certificate : Value)
    (certificateBytes : ByteArray) : Py Value := do
  let raw ← canonical certificate
  let certificate ← parse raw maxRecord
  validateCertificate crypto ctx certificate
  let app ← parse certificateBytes maxRecord
  fieldsEqual certificate (["submission_id", "content_hash", "creator_wallet"].map
    fun key => (key, app.field key))
  let observations := technicalFields.filter fun key =>
    !(["policy_id", "policy_version", "policy_digest", "evidence_digest"].contains key)
  fieldsEqual (certificate.field "technical_evidence")
    (observations.map fun key => (key, (app.field "technical_evidence").field key))
  .ok certificate

/-- The native transactions after their checks. -/
def checkedTransactions (crypto : Crypto) (ctx : Context) (transactions : Value) : Py Value := do
  let raw ← canonical transactions
  let selected ← parse raw maxRecord
  validateTransactions crypto ctx selected
  .ok selected

/-- The checks of the parent of the block. -/
def checkParent (header : Value) (state : ConstructionState) : Py Unit := do
  let parentIndex ← uint state.parentIndex 0 maxUint
  let parentHash ← h64 state.parentHash
  let parentTime ← seconds state.parentTimestamp
  let pool ← uint state.rewardPoolUnits 0 maxUint
  require (header.intAt "index" = parentIndex + 1 ∧ header.textAt "previous_hash" = parentHash)
    (v3Error "parent_binding")
  let time ← seconds (header.field "timestamp")
  require (parentTime < time) (v3Error "parent_time")
  require (5000000 ≤ pool) (v3Error "reward_pool_insufficient")

/-- The reviewers of the votes had the stated status: `false` when one is not known. -/
def checkReviewers (state : ConstructionState) :
    List Value → Except IntegrationError Bool
  | [] => .ok true
  | vote :: votes =>
    match state.reviewerStatus (vote.textAt "voter_wallet_address")
      (vote.intAt "reviewer_status_effective_height")
      (vote.textAt "reviewer_status_reference_block_hash") with
    | .error () => .error ⟨.localFailure, some "reviewer_lookup_unavailable", none⟩
    | .ok none => .ok false
    | .ok (some status) => do
      attempt (require (status = vote.textAt "reviewer_status")
        (v3Error "reviewer_snapshot_mismatch"))
      checkReviewers state votes

/-- The transfers, one after the other: `none` when an account is not known. -/
def applyTransfers (balances nonces : Dict) : List Value → Py (Option Unit)
  | [] => .ok (some ())
  | tx :: txs =>
    let sender := tx.textAt "from_address"
    let recipient := tx.textAt "to_address"
    match balances.get? sender, balances.get? recipient, nonces.get? sender with
    | some fromBalance, some toBalance, some nonce => do
      let fromUnits ← uint fromBalance 0 maxUint
      let toUnits ← uint toBalance 0 maxUint
      let next ← uint nonce 1 maxUint
      let amount ← decimalUnits (tx.field "amount") true none
      require ((nonceNumber (tx.textAt "nonce") : Int) = next) (v3Error "ledger_nonce")
      require (amount ≤ fromUnits) (v3Error "ledger_balance")
      let balances := (balances.set sender (.int (fromUnits - amount))).set recipient
        (.int (toUnits + amount))
      applyTransfers balances (nonces.set sender (.int (next + 1))) txs
    | _, _, _ => .ok none

/-- `payload`. -/
def assemble (crypto : Crypto) (ctx : Context) (header certificate selected media : Value) :
    Py Value := do
  let tally := certificate.field "originality"
  let ratio ← rational (tally.intAt "positive_votes") (tally.intAt "approval_denominator")
  let creator := certificate.field "creator_wallet"
  let reward ← reward creator
  let aggregate ← aggregateHash crypto ctx selected
  let headerFields ← header.asDict
  .ok (.dict (Dict.update headerFields [("block_version", .int 3), ("transactions", .list [reward]),
    ("native_transactions", selected), ("transactions_hash", .str aggregate),
    ("submission_id", certificate.field "submission_id"),
    ("certificate_id", certificate.field "certificate_digest"),
    ("vote_hash", tally.field "vote_set_digest"), ("creator_wallet", creator),
    ("approval_percentage", ratio), ("originality_score", ratio),
    ("decisive_vote_total", tally.field "approval_denominator"),
    ("minimum_votes_required", .int 5), ("approved_at", .int 0),
    ("reward_type", .str "meme_mining_reward"), ("reward_source", .str "reward_pool"),
    ("reward_recipient", creator), ("reward_amount", .str "5"), ("voter_rewards", .list []),
    ("admission_certificate", certificate), ("media", media)]))

/-- The record and its sizes: `encode_record`, `parse`, `check_budgets`. -/
def sizedRecord (crypto : Crypto) (ctx : Context) (payload : Value) :
    Py (ByteArray × Value × Sizes) := do
  let raw ← encodeRecord crypto ctx payload
  let record ← parse raw maxRecord
  let sizes ← checkBudgets record raw
  .ok (raw, record, sizes)

/-- The `try` block up to the record: an incomplete construction, or the record and its sizes. -/
def buildRecord (crypto : Crypto) (ctx : Context) (prepared : PreparedAdmission crypto)
    (header : Value) (given : Evidence) :
    Except IntegrationError (List String ⊕ ByteArray × Value × Sizes) := do
  let media ← attempt (parse prepared.descriptorBytes maxRecord)
  let header ← attempt (checkedHeader header (media.textAt "mime_type"))
  let selected ← attemptGiven (checkedTransactions crypto ctx) given.nativeTransactions
  let certificate ← attemptGiven
    (fun certificate => checkedCertificate crypto ctx certificate prepared.certificateBytes)
    given.certificate
  match certificate, given.state, selected with
  | some certificate, some state, some selected => do
    attempt (checkParent header state)
    let known ← checkReviewers state (certificate.field "votes").items
    if known = false then return .inl ["historical_reviewer_state"]
    let applied ← attempt (applyTransfers state.balances state.nextNonces selected.items)
    if applied = none then return .inl ["native_ledger_state"]
    let payload ← attempt (assemble crypto ctx header certificate selected media)
    let sized ← attempt (sizedRecord crypto ctx payload)
    return .inr sized
  | _, _, _ => return .inl ((if certificate.isNone then ["v2_admission_certificate"] else []) ++
      (if given.state.isNone then ["construction_state"] else []) ++
      if selected.isNone then ["native_transaction_selection"] else [])

/-- `construct`, for an admission that `verify_prepared` passes before and after. -/
def construct (crypto : Crypto) (ctx : Context) (workers : Workers)
    (prepared : PreparedAdmission crypto) (header : Value) (given : Evidence) :
    Except IntegrationError Construction := do
  match ← buildRecord crypto ctx prepared header given with
  | .inl missing => return .incomplete missing
  | .inr (raw, record, sizes) =>
    attempt (require (sizes.complete ≤ prepared.capacity.completeBound)
      (v3Error "identity_reservation_exceeded"))
    let outcome := reconstruct crypto workers
      (((record.field "envelope").field "payload").field "media")
    if outcome.status ≠ .valid then
      throw ⟨if outcome.status = .indeterminate then .localFailure else .invalidCanonical,
        (outcome.reason.orElse fun _ => outcome.code), some outcome⟩
    if outcome.original ≠ some prepared.original then
      throw ⟨.localFailure, some "coordinator_original_bytes_mismatch", none⟩
    return .candidate raw sizes prepared.capacity.completeBound

/-! ## Produced descriptors -/

/-- The descriptor of an original that is stored as it is. -/
theorem descriptor_width {crypto : Crypto} {original encoded : List UInt8} {mime codec : String}
    {v : Value} (h : descriptor crypto original encoded mime codec = .ok v) :
    Unique v ∧ Json.width v ≤ 4 * ((encoded.length + 2) / 3) + 231 := by
  obtain ⟨bytes, hvalid, hout⟩ := bind_eq_ok.mp h
  obtain rfl := Except.ok.inj hout
  have hunique : Unique (.dict [("codec_id", .str codec), ("codec_version", .int 1),
      ("encoding_version", .int 1), ("mime_type", .str mime),
      ("original_sha256", .str (crypto.sha256Hex original.toByteArray)),
      ("original_size", .int original.length),
      ("payload", .str (String.ofList (Base64.encode encoded))),
      ("stored_size", .int encoded.length)]) :=
    ⟨(by decide : descriptorFields.Nodup), trivial, trivial, trivial, trivial, trivial, trivial,
      trivial, trivial, trivial⟩
  have hwidth := (fits_descriptor hvalid hunique).width
  have htext : ∀ d : Dict, Dict.get d "payload" = .str (String.ofList (Base64.encode encoded)) →
      ((Value.dict d).textAt "payload").length = 4 * ((encoded.length + 2) / 3) := by
    intro d hd
    have hfield : (Value.dict d).field "payload" =
        .str (String.ofList (Base64.encode encoded)) := hd
    rw [Value.textAt, hfield, String.length_ofList, Base64.length_encode]
  refine ⟨hunique, hwidth.trans (le_of_eq ?_)⟩
  rw [htext _ rfl]

theorem select_width {crypto : Crypto} {workers : Workers} {original : List UInt8}
    {mime : String} {identity selected : Value}
    (h : select crypto workers original mime = .ok (identity, selected)) :
    Json.width identity ≤ 4 * ((original.length + 2) / 3) + 231 ∧
      Json.width selected ≤ Json.width identity := by
  obtain ⟨v, hidentity, h⟩ := bind_eq_ok.mp h
  obtain ⟨-, hwidth⟩ := descriptor_width hidentity
  split at h
  · cases h
    exact ⟨hwidth, le_refl _⟩
  · split at h
    · obtain ⟨compressed, -, h⟩ := bind_eq_ok.mp h
      obtain ⟨short, hshort, h⟩ := bind_eq_ok.mp h
      obtain ⟨long, hlong, h⟩ := bind_eq_ok.mp h
      cases h
      refine ⟨hwidth, ?_⟩
      split
      · next hlt =>
        rw [← size_canonical hshort, ← size_canonical hlong]
        exact hlt.le
      · exact le_refl _
    · cases h
      exact ⟨hwidth, le_refl _⟩

/-- A produced descriptor is not wider than the identity one can be. -/
theorem produce_width {crypto : Crypto} {workers : Workers} {original : List UInt8}
    {mime : String} {v : Value} {outcome : Outcome}
    (h : produce crypto workers original mime = .ok (some v, outcome)) :
    mime ∈ mimes ∧ (1 ≤ original.length ∧ original.length ≤ maxOriginal mime) ∧
      Json.width v ≤ 4 * ((original.length + 2) / 3) + 231 := by
  obtain ⟨⟨⟩, hmime, h⟩ := bind_eq_ok.mp h
  obtain ⟨⟨⟩, hsize, h⟩ := bind_eq_ok.mp h
  obtain ⟨⟨⟩, -, h⟩ := bind_eq_ok.mp h
  obtain ⟨⟨identity, selected⟩, hselect, h⟩ := bind_eq_ok.mp h
  obtain ⟨hidentity, hselected⟩ := select_width hselect
  refine ⟨require_eq_ok.mp hmime, require_eq_ok.mp hsize, ?_⟩
  -- the identity descriptor, or the selected one, which is not wider
  have hcases : v = identity ∨ v = selected := by
    dsimp only at h
    split at h
    · obtain ⟨hv, -⟩ := Prod.mk.inj (Except.ok.inj h)
      split at hv
      · exact Or.inl (Option.some.inj hv).symm
      · cases hv
    · obtain ⟨hv, -⟩ := Prod.mk.inj (Except.ok.inj h)
      split at hv
      · exact Or.inr (Option.some.inj hv).symm
      · cases hv
  obtain rfl | rfl := hcases
  · exact hidentity
  · exact hselected.trans hidentity

theorem sizeConstants : conservativeSizeBound = 3058797 ∧ maxImage = 2097152 ∧
    maxRecord = 3145728 := by decide +kernel

/-- A reservation can be made for every size that is allowed. -/
theorem reserveIdentity_eq_ok {n : Nat} {mime : String} (hmime : mime ∈ mimes)
    (hn : 1 ≤ n ∧ n ≤ maxOriginal mime) : ∃ capacity, reserveIdentity n mime = .ok capacity ∧
      capacity.completeBound + 4 * ((maxImage + 2) / 3) =
        conservativeSizeBound + 4 * ((n + 2) / 3) := by
  obtain ⟨hbound, himage, hmax⟩ := sizeConstants
  have hle := maxOriginal_le mime
  have htotal : conservativeSizeBound - 4 * ((maxImage + 2) / 3) + 4 * ((n + 2) / 3) ≤
      maxRecord := by omega
  rw [reserveIdentity, require_pos hmime, ok_bind, require_pos hn, ok_bind]
  dsimp only
  rw [require_pos htotal, ok_bind]
  refine ⟨_, rfl, ?_⟩
  dsimp only
  omega

/-! ## Constructed payloads -/

theorem unique_update {d e : Dict} (hd : Unique (.dict d)) (he : ∀ x ∈ e, Unique x.2) :
    Unique (.dict (Dict.update d e)) := by
  induction e generalizing d with
  | nil => exact hd
  | cons x e ih =>
    obtain ⟨hx, he⟩ := List.forall_mem_cons.mp he
    have hset : Unique (.dict (d.set x.1 x.2)) := by
      refine ⟨Dict.nodup_set hd.1 _ _, objectsEntries_iff.mpr fun y hy => ?_⟩
      obtain rfl | hy := Dict.mem_set hy
      · exact hx
      · exact objectsEntries_iff.mp hd.2 y hy
    exact ih hset he

theorem assemble_eq_ok {crypto : Crypto} {ctx : Context}
    {header certificate selected media payload : Value}
    (h : assemble crypto ctx header certificate selected media = .ok payload)
    (hheader : Unique header) (hcertificate : Unique certificate) (hselected : Unique selected)
    (hmedia : Unique media) : Unique payload ∧ payload.field "media" = media := by
  obtain ⟨ratio, hratio, h⟩ := bind_eq_ok.mp h
  obtain ⟨reward, hreward, h⟩ := bind_eq_ok.mp h
  obtain ⟨aggregate, -, h⟩ := bind_eq_ok.mp h
  obtain ⟨d, hd, h⟩ := bind_eq_ok.mp h
  obtain rfl := Except.ok.inj h
  obtain rfl : header = .dict d := by
    cases header with
    | dict e => exact congrArg Value.dict (Except.ok.inj hd)
    | _ => cases hd
  have hratio : Unique ratio := by
    simp only [rational, bind_eq_ok] at hratio
    obtain ⟨_, -, _, -, _, -, _, -, hout⟩ := hratio
    obtain rfl := Except.ok.inj hout
    exact ⟨(by decide : ["numerator", "denominator"].Nodup), trivial, trivial, trivial⟩
  have hreward : Unique reward := by
    obtain ⟨_, -, hout⟩ := bind_eq_ok.mp hreward
    obtain rfl := Except.ok.inj hout
    exact ⟨(by decide : ["amount", "payload_size_kb", "recipient", "sender", "tip"].Nodup),
      trivial, trivial, trivial, trivial, trivial, trivial⟩
  constructor
  · refine unique_update hheader ?_
    simp only [List.forall_mem_cons]
    exact ⟨trivial, ⟨hreward, trivial⟩, hselected, trivial, unique_field hcertificate,
      unique_field hcertificate, unique_field (unique_field hcertificate),
      unique_field hcertificate, hratio, hratio, unique_field (unique_field hcertificate),
      trivial, trivial, trivial, trivial, unique_field hcertificate, trivial, trivial,
      hcertificate, hmedia, nofun⟩
  · show Dict.get _ _ = _
    rw [Dict.get_eq, Dict.get_update_of_mem]
    · simp [Dict.get?_cons]
    · simp [Dict.keys]
    · simp [Dict.keys]

theorem attempt_eq_ok {α : Type} {x : Py α} {a : α} : attempt x = .ok a ↔ x = .ok a := by
  cases x with
  | ok b => simp [attempt]
  | error e => simp [attempt]

theorem integration_bind_eq_ok {α β : Type} {x : Except IntegrationError α}
    {f : α → Except IntegrationError β} {b : β} :
    (x >>= f) = .ok b ↔ ∃ a, x = .ok a ∧ f a = .ok b := by
  cases x <;> simp [bind, Except.bind]

theorem attemptGiven_eq_ok {check : Value → Py Value} {given : Option Value} {w : Value}
    (h : attemptGiven check given = .ok (some w)) : ∃ v, given = some v ∧ check v = .ok w := by
  cases given with
  | none => cases h
  | some v =>
    refine ⟨v, rfl, ?_⟩
    rw [attemptGiven] at h
    cases hcheck : check v with
    | ok u =>
      rw [hcheck] at h
      exact congrArg Except.ok (Option.some.inj (Except.ok.inj h))
    | error e =>
      rw [hcheck] at h
      cases h

/-- A built record is the one of an accepted payload that has the prepared media. -/
theorem buildRecord_eq_ok {crypto : Crypto} {ctx : Context} {prepared : PreparedAdmission crypto}
    {header : Value} {given : Evidence} {raw : ByteArray} {record : Value} {sizes : Sizes}
    (h : buildRecord crypto ctx prepared header given = .ok (.inr (raw, record, sizes))) :
    ∃ payload media, Unique payload ∧ payload.field "media" = media ∧
      parse prepared.descriptorBytes maxRecord = .ok media ∧
      encodeRecord crypto ctx payload = .ok raw ∧ checkBudgets record raw = .ok sizes := by
  obtain ⟨media, hmedia, h⟩ := integration_bind_eq_ok.mp h
  obtain ⟨header', hheader, h⟩ := integration_bind_eq_ok.mp h
  obtain ⟨selected, hselected, h⟩ := integration_bind_eq_ok.mp h
  obtain ⟨certificate, hcertificate, h⟩ := integration_bind_eq_ok.mp h
  have hmedia := attempt_eq_ok.mp hmedia
  have hheaderUnique : Unique header' := by
    obtain ⟨_, -, hheader⟩ := bind_eq_ok.mp (attempt_eq_ok.mp hheader)
    obtain ⟨_, -, hheader⟩ := bind_eq_ok.mp hheader
    obtain ⟨w, hw, hheader⟩ := bind_eq_ok.mp hheader
    simp only [bind_eq_ok] at hheader
    obtain ⟨_, -, _, -, _, -, _, -, _, -, _, -, _, -, hout⟩ := hheader
    exact Except.ok.inj hout ▸ unique_of_parse hw
  have hselectedUnique : ∀ w ∈ selected, Unique w := by
    intro w hw
    obtain rfl : selected = some w := hw
    obtain ⟨v, -, hv⟩ := attemptGiven_eq_ok hselected
    obtain ⟨_, -, hv⟩ := bind_eq_ok.mp hv
    obtain ⟨v, hparse, hv⟩ := bind_eq_ok.mp hv
    obtain ⟨_, -, hout⟩ := bind_eq_ok.mp hv
    exact Except.ok.inj hout ▸ unique_of_parse hparse
  have hcertificateUnique : ∀ w ∈ certificate, Unique w := by
    intro w hw
    obtain rfl : certificate = some w := hw
    obtain ⟨v, -, hv⟩ := attemptGiven_eq_ok hcertificate
    obtain ⟨_, -, hv⟩ := bind_eq_ok.mp hv
    obtain ⟨v, hparse, hv⟩ := bind_eq_ok.mp hv
    simp only [bind_eq_ok] at hv
    obtain ⟨_, -, _, -, _, -, _, -, hout⟩ := hv
    exact Except.ok.inj hout ▸ unique_of_parse hparse
  split at h
  · next certificate' state selected' hstate =>
    obtain ⟨⟨⟩, -, h⟩ := integration_bind_eq_ok.mp h
    obtain ⟨known, -, h⟩ := integration_bind_eq_ok.mp h
    split at h
    · cases h
    obtain ⟨applied, -, h⟩ := integration_bind_eq_ok.mp h
    split at h
    · cases h
    obtain ⟨payload, hpayload, h⟩ := integration_bind_eq_ok.mp h
    obtain ⟨sized, hsized, hout⟩ := integration_bind_eq_ok.mp h
    obtain ⟨hunique, hfield⟩ := assemble_eq_ok (attempt_eq_ok.mp hpayload) hheaderUnique
      (hcertificateUnique _ rfl) (hselectedUnique _ rfl) (unique_of_parse hmedia)
    obtain ⟨encoded, hencoded, hsized⟩ := bind_eq_ok.mp (attempt_eq_ok.mp hsized)
    obtain ⟨parsed, -, hsized⟩ := bind_eq_ok.mp hsized
    obtain ⟨budget, hbudget, hsame⟩ := bind_eq_ok.mp hsized
    obtain rfl := Except.ok.inj hsame
    cases hout
    exact ⟨payload, media, hunique, hfield, hmedia, hencoded, hbudget⟩
  · cases h

/-! ## The bounds -/

theorem complete_of_checkBudgets {record : Value} {raw : ByteArray} {sizes : Sizes}
    (h : checkBudgets record raw = .ok sizes) : sizes.complete = raw.size := by
  simp only [checkBudgets, bind_eq_ok] at h
  obtain ⟨_, -, _, -, _, -, _, -, hout⟩ := h
  rw [← Except.ok.inj hout]

/-- A record whose media has been produced fits the reservation for the original. -/
theorem size_le_reserved {crypto : Crypto} {ctx : Context} {payload v : Value}
    {raw : ByteArray} {workers : Workers} {original : List UInt8} {mime : String}
    {outcome : Outcome} (hunique : Unique payload)
    (hraw : encodeRecord crypto ctx payload = .ok raw)
    (hproduced : produce crypto workers original mime = .ok (some v, outcome))
    (hsame : SameValue (payload.field "media") v) :
    ∃ capacity, reserveIdentity original.length mime = .ok capacity ∧
      raw.size ≤ capacity.completeBound := by
  obtain ⟨hmime, hsize, hwidth⟩ := produce_width hproduced
  obtain ⟨capacity, hcapacity, hbound⟩ := reserveIdentity_eq_ok hmime hsize
  obtain ⟨⟨⟩, hvalid, -⟩ := bind_eq_ok.mp hraw
  obtain ⟨raw', _, _, -, -, -, hraw', hmedia, -⟩ := encodeRecord_of_valid hvalid hunique
  obtain rfl := Except.ok.inj (hraw.symm.trans hraw')
  rw [width_congr hsame] at hmedia
  refine ⟨capacity, hcapacity, ?_⟩
  omega

/-- A payload that `validate_payload` accepts has a record within every budget, within the
analytic bound, and within the reservation when its media has been produced for an original of
the reserved size. A record that `construct` builds is never above the reservation. -/
theorem blockSize (crypto : Crypto) (ctx : Context) :
    (∀ payload, Unique payload → validatePayload crypto ctx payload = .ok () →
      ∃ raw preimage sizes, canonical (envelope payload "block" ctx) = .ok preimage ∧
        checkBudgets (blockRecord crypto (envelope payload "block" ctx) preimage) raw =
          .ok sizes ∧
        encodeRecord crypto ctx payload = .ok raw ∧
        sizes.certificate ≤ 196608 ∧ sizes.native ≤ 98304 ∧ 0 ≤ sizes.rest ∧
        sizes.rest ≤ 32768 ∧ raw.size ≤ maxRecord ∧ raw.size ≤ conservativeSizeBound ∧
        ∀ workers original mime v outcome,
          produce crypto workers original mime = .ok (some v, outcome) →
          SameValue (payload.field "media") v →
          ∃ capacity, reserveIdentity original.length mime = .ok capacity ∧
            raw.size ≤ capacity.completeBound) ∧
    ∀ (prepared : PreparedAdmission crypto) header given raw record sizes,
      buildRecord crypto ctx prepared header given = .ok (.inr (raw, record, sizes)) →
      sizes.complete ≤ prepared.capacity.completeBound := by
  constructor
  · intro payload hunique hvalid
    obtain ⟨raw, preimage, sizes, hpreimage, -, hbudget, hraw, -, hbound, -, hcertificate,
      hnative, hlow, hhigh⟩ := encodeRecord_of_valid hvalid hunique
    have hmax : raw.size ≤ maxRecord := by
      obtain ⟨⟨⟩, hcomplete, -⟩ := bind_eq_ok.mp hbudget
      exact require_eq_ok.mp hcomplete
    refine ⟨raw, preimage, sizes, hpreimage, hbudget, hraw, hcertificate, hnative, hlow, hhigh,
      hmax, hbound, ?_⟩
    intro workers original mime v outcome hproduced hsame
    exact size_le_reserved hunique hraw hproduced hsame
  · intro prepared header given raw record sizes h
    obtain ⟨payload, media, hunique, hfield, hmedia, hraw, hbudget⟩ := buildRecord_eq_ok h
    obtain ⟨workers, v, outcome, hproduced, hbytes⟩ := prepared.produced
    have hsame : SameValue (payload.field "media") v := by
      rw [hfield]
      exact canonical_inj (parse_eq_ok.mp hmedia).2.2 hbytes
    obtain ⟨capacity, hcapacity, hle⟩ := size_le_reserved hunique hraw hproduced hsame
    obtain rfl := Except.ok.inj (hcapacity.symm.trans prepared.reserved)
    rw [complete_of_checkBudgets hbudget]
    exact hle

/-- Workers that find no shorter encoding and restore the original. -/
def sampleWorkers : Workers where
  compress _ := none
  decode _ := { status := .valid, original := some sampleOriginal }

theorem produce_sample : produce sampleCrypto sampleWorkers sampleOriginal "text/plain" =
    .ok (some sampleMedia, sampleWorkers.decode ByteArray.empty) := by
  obtain ⟨hwrites, ⟨bytes, hvalid⟩, -⟩ := sampleBlock.media_spec
  have hvalid : validateDescriptor sampleMedia = .ok bytes := hvalid
  have hraw : canonical sampleMedia = .ok (encodeUtf8 (canonicalText sampleMedia)) :=
    hwrites.canonical
  have hlines : canonicalOriginal sampleOriginal = .ok () := by decide +kernel
  have hselect : select sampleCrypto sampleWorkers sampleOriginal "text/plain" =
      .ok (sampleMedia, sampleMedia) := by
    rw [select, media_sample]
    rfl
  have hreconstruct : reconstruct sampleCrypto sampleWorkers sampleMedia =
      sampleWorkers.decode ByteArray.empty := by
    have hsize : sampleMedia.intAt "original_size" = sampleOriginal.length := rfl
    have hsha : sampleMedia.textAt "original_sha256" =
        sampleCrypto.sha256Hex sampleOriginal.toByteArray := rfl
    have hmime : sampleMedia.textAt "mime_type" = "text/plain" := rfl
    have hchecked : (do let _ ← validateDescriptor sampleMedia; canonical sampleMedia) =
        (.ok (encodeUtf8 (canonicalText sampleMedia)) : Py ByteArray) := by
      rw [hvalid, ok_bind, hraw]
    have hdecode : ∀ raw, sampleWorkers.decode raw =
        { status := .valid, original := some sampleOriginal } := fun _ => rfl
    rw [reconstruct, hchecked]
    simp only [hdecode, hsize, hsha, hmime, hlines, ne_eq, not_true_eq_false, or_self, if_false,
      if_true]
  rw [produce, require_pos (by decide), ok_bind, require_pos (by decide), ok_bind, if_pos rfl,
    hlines, ok_bind, hselect, ok_bind]
  simp only [hreconstruct]
  rfl

/-- The block of five reviewers is within the reservation for its original. -/
theorem blockSize_sample :
    ∃ raw capacity, encodeRecord sampleCrypto sampleContext sampleBlock.payload = .ok raw ∧
      raw.size ≤ conservativeSizeBound ∧ reserveIdentity 2 "text/plain" = .ok capacity ∧
      raw.size ≤ capacity.completeBound := by
  obtain ⟨hvalid, -⟩ := blockSize sampleCrypto sampleContext
  obtain ⟨raw, -, -, -, -, hraw, -, -, -, -, -, hbound, hreserved⟩ :=
    hvalid sampleBlock.payload sampleBlock.writes_payload.unique
      (validatePayload_issued sampleBlock)
  obtain ⟨capacity, hcapacity, hsize⟩ := hreserved sampleWorkers sampleOriginal "text/plain"
    sampleMedia _ produce_sample rfl
  exact ⟨raw, capacity, hraw, hbound, hcapacity, hsize⟩

end CanonicalV3

end ZoidbergChain
