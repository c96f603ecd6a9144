import ZoidbergChain.Python.Control
import ZoidbergChain.Scan.Collect

/-!
# The mint queue (services/mint_queue_service.py)

The queue holds the ids of the submissions that wait for a block. An item is judged from
the submission, its certificate and its content; the checks of the certificate and of the
stored payload are functions of the caller.

- `record` is the judgement of one item. `evaluate` looks an item up and judges it; a queued
  submission without a certificate goes back to `APPROVED`.
- `listed` judges every item and sorts what it finds.
- `firstMintable` ranks the candidates first, and judges them until one is mintable.
-/

namespace ZoidbergChain.MintQueue

open Python

/-- `SUBMISSION_STATUSES`. -/
inductive SubmissionStatus where
  | pending
  | approved
  | queued
  | rejected
  | hardRejected
  | minted
  | quarantined
  deriving DecidableEq

/-- `ATTESTATION_REQUIREMENTS`. -/
inductive AttestationRequirement where
  | required
  | legacy
  | development
  deriving DecidableEq

/-- `STORAGE_STATUSES`. -/
inductive StorageStatus where
  | missing
  | local
  | remote
  | verified
  deriving DecidableEq

/-- The `certificate_status` of a record. -/
inductive CertificateStatus where
  | missing
  | valid
  | blocked
  | invalid
  deriving DecidableEq

/-- What the queue reads of a `Submission`. -/
structure Submission where
  submissionId : String
  status : SubmissionStatus
  contentHash : Option String
  contentId : Option String
  textContent : Value
  mintBlocked : Bool
  mintBlockReason : Value
  mintBlockedAt : Value
  mintBlockedBy : Value
  mintBlockNotes : Value
  attestationRequirement : AttestationRequirement
  admissionCertificate : Option Dict
  deriving DecidableEq

/-- What the queue reads of an `OriginalityCertificate`. -/
structure OriginalityCertificate where
  submissionId : String
  contentHash : String
  voteHash : String
  certificateId : String
  originalityScore : Value
  evidenceBindingStatus : Value
  deriving DecidableEq

/-- The certificate of a submission: an originality certificate, or the
`AdmissionMintCertificateView` of an admission certificate. -/
inductive Certificate where
  | originality (certificate : OriginalityCertificate)
  | admission (admissionCertificate : Dict)
  deriving DecidableEq

/-- What the queue reads of a `ContentObject`. -/
structure ContentObject where
  contentHash : String
  contentId : String
  contentType : String
  mimeType : String
  storageStatus : StorageStatus
  localPath : Value
  deriving DecidableEq

/-- What the queue reads of `verify_content_object_payload(...)`. -/
structure Verification where
  verified : Bool
  error : Value

/-- What the queue is called with: the checks of the caller, and the file system. -/
structure Oracles extends Runtime where
  /-- `certificate_validator(certificate, submission)`, or
  `validate_certificate_for_submission` with the network name. -/
  certificateValidator : Certificate → Submission → Py Unit
  /-- `verify_content_object_payload(content_object, data_dir=storage.data_dir)`. -/
  verifyContentObjectPayload : ContentObject → Py Verification
  /-- `resolve_local_path(local_path, data_dir=storage.data_dir)`. -/
  resolveLocalPath : Value → Option String
  /-- `os.path.isfile`. -/
  isFile : String → Bool
  /-- `extract_text_func`. -/
  extractText : String → Py Value
  /-- `a / b`. -/
  divide : Value → Value → Py Value

/-- `MintQueueState`. -/
structure State where
  submissions : List Submission
  contentObjects : List ContentObject
  originalityCertificates : List OriginalityCertificate
  mintQueue : List Value
  deriving DecidableEq

/-! ## Certificates -/

/-- `certificate.certificate_id`. -/
def Certificate.certificateId : Certificate → Py Value
  | .originality c => .ok (.str c.certificateId)
  | .admission d => d.index "certificate_digest"

/-- `certificate.content_hash`. -/
def Certificate.contentHash : Certificate → Py Value
  | .originality c => .ok (.str c.contentHash)
  | .admission d => d.index "content_hash"

/-- `certificate.vote_hash`. -/
def Certificate.voteHash : Certificate → Py Value
  | .originality c => .ok (.str c.voteHash)
  | .admission d => do (← d.index "originality").item "vote_set_digest"

/-- `certificate.originality_score`; the one of an admission certificate is its
`approval_percentage`. -/
def Certificate.originalityScore (o : Oracles) : Certificate → Py Value
  | .originality c => .ok c.originalityScore
  | .admission d => do
    let tally ← d.index "originality"
    o.divide (← tally.item "positive_votes") (← tally.item "approval_denominator")

/-- The order of the certificates: three texts, compared one after the other. -/
abbrev MintOrderKey := String ×ₗ String ×ₗ String

/-- `canonical_mint_order_key` of a certificate that is not `None`. -/
def canonicalMintOrderKey (o : Oracles) (certificate : Certificate) : Py MintOrderKey := do
  let contentHash ← certificate.contentHash
  let voteHash ← certificate.voteHash
  let certificateId ← certificate.certificateId
  .ok (toLex (o.lower (contentHash.text o.toRuntime),
    toLex (o.lower (voteHash.text o.toRuntime), o.lower (certificateId.text o.toRuntime))))

/-! ## Lookups -/

/-- `isinstance(key, str) and key.strip()`, as the text that is looked for. -/
def lookupKey : Value → Option String
  | .str s => if strip s = "" then none else some (strip s)
  | _ => none

/-- `storage.get_submission(submission_id, state.submissions)`. -/
def State.submission (state : State) (submissionId : Value) : Option Submission := do
  let key ← lookupKey submissionId
  state.submissions.find? fun s => s.submissionId = key

/-- `storage.get_content_object_by_hash(content_hash, state.content_objects)`. -/
def State.contentByHash (state : State) (contentHash : String) : Option ContentObject := do
  let key ← lookupKey (.str contentHash)
  state.contentObjects.find? fun c => c.contentHash = key

/-- `storage.get_content_object(content_id, state.content_objects)`. -/
def State.contentById (state : State) (contentId : String) : Option ContentObject := do
  let key ← lookupKey (.str contentId)
  state.contentObjects.find? fun c => c.contentId = key

/-- `storage.get_certificate_for_submission(submission_id, state.originality_certificates)`. -/
def State.originalityCertificate (state : State) (submissionId : Value) :
    Option OriginalityCertificate := do
  let key ← lookupKey submissionId
  state.originalityCertificates.find? fun c =>
    c.submissionId = key ∧ c.evidenceBindingStatus ≠ .str "invalidated_by_reorg"

/-- `_certificate`. -/
def State.certificate (state : State) (submissionId : Value) : Option Certificate :=
  match state.submission submissionId with
  | some s =>
    if s.attestationRequirement = .required then s.admissionCertificate.map .admission
    else (state.originalityCertificate submissionId).map .originality
  | none => (state.originalityCertificate submissionId).map .originality

/-- The content of a submission, by its hash or else by its id. -/
def State.content (state : State) (s : Submission) : Option ContentObject :=
  (s.contentHash.bind state.contentByHash).or (s.contentId.bind state.contentById)

/-! ## The judgement of one item -/

/-- The record of an item: the fields that are set by `record` and `evaluate`, over the
submission they are about. -/
structure MintRecord where
  submissionId : Value
  /-- The other fields of `submission.to_dict()`. -/
  submission : Option Submission
  submissionStatus : Option SubmissionStatus
  certificateStatus : CertificateStatus
  contentStatus : StorageStatus
  storageStatus : StorageStatus
  contentMetadataMissing : Bool
  missingFields : List String
  mintable : Bool
  mintBlockReason : Value
  downloadUrl : Option String
  originalityScore : Value
  mintBlocked : Bool
  mintBlockedAt : Value
  mintBlockedBy : Value
  mintBlockNotes : Value
  /-- Set when there is a certificate. -/
  certificateId : Value
  contentId : Option String
  contentType : Option String
  mimeType : Option String
  validationError : Option String
  verificationError : Value
  deriving DecidableEq

/-- The record of a submission before any check. -/
def freshRecord (s : Submission) (certificateStatus : CertificateStatus)
    (originalityScore certificateId : Value) : MintRecord where
  submissionId := .str s.submissionId
  submission := some s
  submissionStatus := some s.status
  certificateStatus := certificateStatus
  contentStatus := .missing
  storageStatus := .missing
  contentMetadataMissing := true
  missingFields := []
  mintable := false
  mintBlockReason := .null
  downloadUrl := none
  originalityScore := originalityScore
  mintBlocked := s.mintBlocked
  mintBlockedAt := s.mintBlockedAt
  mintBlockedBy := s.mintBlockedBy
  mintBlockNotes := s.mintBlockNotes
  certificateId := certificateId
  contentId := none
  contentType := none
  mimeType := none
  validationError := none
  verificationError := .null

/-- The record of an id that no submission has. -/
def notFoundRecord (submissionId : Value) : MintRecord where
  submissionId := submissionId
  submission := none
  submissionStatus := none
  certificateStatus := .missing
  contentStatus := .missing
  storageStatus := .missing
  contentMetadataMissing := true
  missingFields := ["submission"]
  mintable := false
  mintBlockReason := .str "submission_not_found"
  downloadUrl := none
  originalityScore := .null
  mintBlocked := false
  mintBlockedAt := .null
  mintBlockedBy := .null
  mintBlockNotes := .null
  certificateId := .null
  contentId := none
  contentType := none
  mimeType := none
  validationError := none
  verificationError := .null

/-- `record["mint_block_reason"] = reason; record["missing_fields"].extend(fields)`. -/
def MintRecord.held (r : MintRecord) (reason : String) (fields : List String) : MintRecord :=
  { r with mintBlockReason := .str reason, missingFields := r.missingFields ++ fields }

/-- The record of a certificate that is refused with a message. -/
def MintRecord.refused (o : Oracles) (r : MintRecord) (message : String) : MintRecord :=
  let lowered := o.lower message
  let reason :=
    if containsText "content_hash" lowered ∨ containsText "content_id" lowered
    then "certificate_content_hash_mismatch" else "unknown_error"
  { r with
    certificateStatus := .invalid
    mintBlockReason := .str reason
    validationError := some message
    missingFields := r.missingFields ++ ["certificate"] }

/-- The record with the metadata of the content. -/
def MintRecord.withContent (r : MintRecord) (content : ContentObject) : MintRecord :=
  { r with
    contentMetadataMissing := false
    contentId := some content.contentId
    contentType := some content.contentType
    mimeType := some content.mimeType
    contentStatus := content.storageStatus
    storageStatus := content.storageStatus
    downloadUrl :=
      if content.storageStatus = .local ∨ content.storageStatus = .verified
      then some ("/content/" ++ content.contentHash) else r.downloadUrl }

/-- The record of an item that passed the checks of its payload. -/
def MintRecord.ready (r : MintRecord) : MintRecord :=
  { r with
    mintable := true, mintBlockReason := .null, missingFields := [], certificateStatus := .valid }

/-- The text that is read from the file of a content. -/
def pictureText (o : Oracles) (content : ContentObject) : Py Value :=
  match o.resolveLocalPath content.localPath with
  | some path => if path ≠ "" ∧ o.isFile path then o.extractText path else .ok (.str "")
  | none => .ok (.str "")

/-- The last check: a picture that comes without text must have a text in it. -/
def textRecord (o : Oracles) (s : Submission) (content : ContentObject) (r : MintRecord) :
    Py MintRecord :=
  if (content.mimeType = "text/plain" ∨ content.contentType = "text") ∨
      s.textContent.trimmed o.toRuntime ≠ "" then .ok r.ready
  else do
    let extracted ← pictureText o content
    if strip (extracted.text o.toRuntime) = "" then
      .ok { r.ready with
        mintable := false
        mintBlockReason := .str "no_text_content_extracted"
        missingFields := ["text_content"] }
    else .ok r.ready

/-- The reason that is given for a payload that fails its verification. -/
def payloadReason (error : String) : String :=
  if error = "missing_file" then "content_payload_missing"
  else if error ∈ ["hash_mismatch", "file_size_mismatch"] then "content_hash_mismatch"
  else "content_not_verified"

/-- The record of a payload that fails its verification. -/
def MintRecord.unverified (o : Oracles) (s : Submission) (r : MintRecord) (failure : Value) :
    MintRecord :=
  let error := o.lower ((failure.orElse (.str "")).text o.toRuntime)
  if error = "legacy_unverifiable" ∧ s.attestationRequirement ≠ .required then
    { r with mintable := true, mintBlockReason := .null }
  else { r.held (payloadReason error) ["content_payload"] with verificationError := failure }

/-- The checks of the payload of a content whose certificate was accepted. -/
def payloadRecord (o : Oracles) (s : Submission) (content : ContentObject) (r : MintRecord) :
    Py MintRecord :=
  if content.storageStatus = .remote then
    .ok (r.held "content_payload_missing" ["content_payload"])
  else if content.storageStatus = .missing then
    .ok (r.held "content_metadata_missing" ["content_payload"])
  else do
    let verification ← o.verifyContentObjectPayload content
    if verification.verified then textRecord o s content r
    else .ok (r.unverified o s verification.error)

/-- The checks of a certified submission in the queue. -/
def certifiedRecord (o : Oracles) (s : Submission) (content : Option ContentObject)
    (certificate : Certificate) (r : MintRecord) : Py MintRecord :=
  match content with
  | none =>
    .ok (r.held "content_metadata_missing" ["content_hash", "content_id", "mime_type",
      "content_type"])
  | some content =>
    match o.certificateValidator certificate s with
    | .error e => if e.isValueError then .ok (r.refused o e.message) else .error e
    | .ok () => payloadRecord o s content (r.withContent content)

/-- A field of the certificate, `None` without one. -/
def fieldOf (certificate : Option Certificate) (field : Certificate → Py Value) : Py Value :=
  match certificate with
  | some c => field c
  | none => .ok .null

/-- The checks of `record` on a fresh record. -/
def statusRecord (o : Oracles) (s : Submission) (content : Option ContentObject)
    (certificate : Option Certificate) (r : MintRecord) : Py MintRecord :=
  if s.mintBlocked then
    .ok { r with
      mintBlockReason := s.mintBlockReason.orElse (.str "mint_blocked_manually")
      certificateStatus := .blocked }
  else if s.status = .minted then .ok (r.held "already_minted" ["status"])
  else if s.status ≠ .queued then .ok (r.held "submission_not_approved" ["status"])
  else
    match certificate with
    | none => .ok (r.held "certificate_missing" ["certificate_id"])
    | some c => certifiedRecord o s content c r

/-- `record`. -/
def record (o : Oracles) (s : Submission) (content : Option ContentObject)
    (certificate : Option Certificate) : Py MintRecord := do
  let originalityScore ← fieldOf certificate (Certificate.originalityScore o)
  let certificateId ← fieldOf certificate Certificate.certificateId
  let certificateStatus := if certificate = none then .missing else .valid
  statusRecord o s content certificate
    (freshRecord s certificateStatus originalityScore certificateId)

/-- `submission.status = APPROVED`, for the submission that is found under the id. -/
def requeue (key : String) : List Submission → List Submission
  | [] => []
  | s :: rest =>
    if s.submissionId = key then { s with status := .approved } :: rest
    else s :: requeue key rest

/-- `evaluate`. -/
def evaluate (o : Oracles) (state : State) (submissionId : Value) : Py (MintRecord × State) :=
  match state.submission submissionId with
  | none => .ok (notFoundRecord submissionId, state)
  | some s => do
    let r ← record o s (state.content s) (state.certificate submissionId)
    if s.status = .queued ∧ r.mintBlockReason = .str "certificate_missing" then
      .ok ({ r with submissionStatus := some .approved },
        { state with submissions := requeue s.submissionId state.submissions })
    else .ok (r, state)

/-! ## The list and its first item -/

/-- The order of the list: the certified items by their certificates, then the others. -/
abbrev RecordOrderKey := MintOrderKey ⊕ₗ String

/-- `record_order_key`. -/
def recordOrderKey (o : Oracles) (state : State) (r : MintRecord) : Py RecordOrderKey :=
  let submissionId := (r.submissionId.orElse (.str "")).text o.toRuntime
  let last : RecordOrderKey := Sum.inrₗ (o.lower submissionId)
  if r.submissionStatus = some .queued ∧ r.certificateStatus = .valid ∧ r.mintBlocked = false then
    match state.certificate (.str submissionId) with
    | some c => do .ok (Sum.inlₗ (← canonicalMintOrderKey o c))
    | none => .ok last
  else .ok last

/-- `[self.evaluate(...) for submission_id in state.mint_queue]`. -/
def evaluateAll (o : Oracles) : State → List Value → Py (List MintRecord × State)
  | state, [] => .ok ([], state)
  | state, submissionId :: rest => do
    let first ← evaluate o state submissionId
    let others ← evaluateAll o first.2 rest
    .ok (first.1 :: others.1, others.2)

/-- `list`. -/
def listed (o : Oracles) (state : State) (includeBlocked mintableOnly : Bool) :
    Py (List MintRecord × State) := do
  let all ← evaluateAll o state state.mintQueue
  let keyed ← all.1.mapM fun r => do .ok (← recordOrderKey o all.2 r, r)
  let sorted := (Scan.inOrder Prod.fst keyed).map Prod.snd
  .ok (sorted.filter fun r =>
    (!mintableOnly || r.mintable) && (includeBlocked || r.mintable), all.2)

/-- The entry of an item in the ranking of `first_mintable`, if it has one. -/
def candidate (o : Oracles) (state : State) (submissionId : Value) :
    Py (Option (MintOrderKey ×ₗ String)) :=
  match state.submission submissionId with
  | none => .ok none
  | some s =>
    if s.status ≠ .queued ∨ s.mintBlocked then .ok none
    else
      match state.certificate submissionId with
      | none => .ok none
      | some c =>
        match canonicalMintOrderKey o c with
        | .ok key => .ok (some (toLex (key, submissionId.text o.toRuntime)))
        | .error e => if e.isValueError then .ok none else .error e

/-- The first mintable one of the ranked candidates. -/
def evaluateUntil (o : Oracles) : State → List (MintOrderKey ×ₗ String) →
    Py (Option MintRecord × State)
  | state, [] => .ok (none, state)
  | state, entry :: rest => do
    let r ← evaluate o state (.str (ofLex entry).2)
    if r.1.mintable then .ok (some r.1, r.2) else evaluateUntil o r.2 rest

/-- `first_mintable`. -/
def firstMintable (o : Oracles) (state : State) : Py (Option MintRecord × State) := do
  let ranked ← state.mintQueue.mapM (candidate o state)
  evaluateUntil o state (Scan.inOrder id (ranked.filterMap id))

end ZoidbergChain.MintQueue
