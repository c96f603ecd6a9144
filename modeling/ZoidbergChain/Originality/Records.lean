import ZoidbergChain.Protocol
import ZoidbergChain.Python.Control

/-!
# Originality evidence records (storage.py:2025–2119, originality.py:374–415)

The table `originality_evidence_records`, and how a document save synchronizes it.

- `validateOriginalityEvidence` checks one record of the document.
- `synchronizeOriginalityEvidenceRecords` is the save: the evidence that the document no longer
  holds, and then every record of the document in the order of the submissions.

Of the columns only those are kept that a modelled function reads. The table of matches is left
out, but for the fields that its rows are made of.
-/

namespace ZoidbergChain

open Python

namespace Originality

theorem lawfulBEq_reference : LawfulBEq (Int × String) := inferInstance

attribute [local instance] lawfulBEq_reference

/-! ## Evidence -/

def originalityRuleVersion : Int := 1
def originalityEvidenceVersion : Int := 1
def certificateEvidenceProfile : String := "milestone-5-certificate-consensus-v1"

/-- The runtime that a certificate profile is bound to. -/
def fuzzyRuntimeIdentity : Dict :=
  [("pillow_version", .str "12.3.0"), ("imagehash_version", .str "4.3.1"),
    ("ocr_identity", .str "tesseract-disabled-review-only-v1")]

/-- `originality_rule`, of which only the check of the version is used. -/
def originalityRule : Value → Py Unit
  | .int version => require (version = originalityRuleVersion)
      (.value s!"Unsupported originality rule version: {version}")
  | _ => .error (.value "Originality rule version must be an integer.")

/-- `originality_evidence_payload`. -/
def originalityEvidencePayload (evidence : Dict) : Dict :=
  evidence.filter fun e => !(["canonical_evidence_digest", "observed_at"].contains e.1)

/-- `originality_evidence_digest`. -/
def originalityEvidenceDigest (h : Host) (evidence : Dict) : Py String :=
  canonicalHash h (.dict (originalityEvidencePayload evidence))

/-- `validate_originality_evidence`. -/
def validateOriginalityEvidence (h : Host) : Value → Py Dict
  | .dict evidence => do
    originalityRule (Dict.get evidence "originality_rule_version")
    require ((Dict.get evidence "evidence_version").pyEq (.int originalityEvidenceVersion) = true)
      (.value "Unsupported originality evidence version.")
    let decision ← (Dict.get evidence "final_prevote_decision").hashKey
    require (decision ∈ [.str "PASS", .str "FLAGGED_FOR_REVIEW", .str "HARD_REJECT"])
      (.value "Invalid final pre-vote originality decision.")
    let profile := Dict.get evidence "certificate_verification_profile"
    require (profile = .null ∨ profile = .str certificateEvidenceProfile)
      (.value "Unsupported certificate evidence verification profile.")
    require (profile = .null ∨
        (Dict.get evidence "fuzzy_runtime_identity").pyEq (.dict fuzzyRuntimeIdentity) = true)
      (.value "Certificate evidence fuzzy runtime identity is invalid.")
    ["content_hash", "originality_reference_block_hash"].forM fun field =>
      require (IsHex64 (((Dict.get evidence field).orElse (.str "")).text h.toRuntime))
        (.value s!"{field} must be a lowercase SHA-256 hash.")
    let expected ← originalityEvidenceDigest h evidence
    require (Dict.get evidence "canonical_evidence_digest" = .str expected)
      (.value "Originality evidence digest does not match its canonical payload.")
    return evidence
  | _ => .error (.value "Originality evidence must be an object.")

/-! ## The table -/

/-- A row of `originality_evidence_records`. -/
structure EvidenceRow where
  evidenceDigest : String
  submissionId : String
  referenceHeight : Int
  referenceBlockHash : String
  evidenceJson : String
  isCurrent : Bool
  invalidatedByReorg : Bool
  deriving DecidableEq

/-- The block that the evidence refers to. -/
def EvidenceRow.reference (r : EvidenceRow) : Int × String :=
  (r.referenceHeight, r.referenceBlockHash)

/-- `UPDATE … SET is_current = 0, invalidated_by_reorg = ? WHERE evidence_digest = ?`. -/
def retire (rows : List EvidenceRow) (digest : String) (invalidated : Bool) : List EvidenceRow :=
  rows.map fun r =>
    if r.evidenceDigest = digest then
      { r with isCurrent := false, invalidatedByReorg := invalidated }
    else r

/-- `INSERT OR IGNORE`: a row that breaks a constraint of the table is left out. -/
def insertOrIgnore (rows : List EvidenceRow) (row : EvidenceRow) : List EvidenceRow :=
  if row.referenceHeight < 0 ∨ (∃ r ∈ rows, r.evidenceDigest = row.evidenceDigest) ∨
    (row.isCurrent = true ∧ ∃ r ∈ rows, r.submissionId = row.submissionId ∧ r.isCurrent = true)
  then rows
  else rows ++ [row]

/-- `UPDATE … SET is_current = CASE WHEN evidence_digest = ? THEN 1 ELSE 0 END WHERE
submission_id = ?`. -/
def selectCurrent (rows : List EvidenceRow) (digest submissionId : String) : List EvidenceRow :=
  rows.map fun r =>
    if r.submissionId = submissionId then { r with isCurrent := decide (r.evidenceDigest = digest) }
    else r

/-- `current_by_submission.get(submission_id)`. -/
def currentRow (rows : List EvidenceRow) (submissionId : String) : Option EvidenceRow :=
  rows.find? fun r => decide (r.submissionId = submissionId) && r.isCurrent

/-! ## A save -/

section Save

variable (h : Host)

/-- `by_submission`. -/
def bySubmission (records : List Value) : Py (List (String × Dict)) :=
  records.foldlM (fun found raw => do
    let evidence ← validateOriginalityEvidence h raw
    let submissionId := strip ((← Dict.index evidence "submission_id").text h.toRuntime)
    require (submissionId ≠ "" ∧ submissionId ∉ found.map Prod.fst) {
      exc := .storageUniquenessError
      message := "Current originality evidence must be unique per submission." }
    return found ++ [(submissionId, evidence)]) []

/-- The blocks of the chain, by height and hash. -/
def canonicalBlocks (blocks : List Value) : Py (List (Int × String)) := do
  let known := blocks.filterMap fun block =>
    match block with
    | .dict block =>
      if (Dict.get block "index").isNone || !(Dict.get block "hash").truthy then none
      else some block
    | _ => none
  known.mapM fun block => do
    return (← (Dict.get block "index").toInt,
      h.lower (strip (((Dict.get block "hash").orElse (.str "")).text h.toRuntime)))

/-- The digests that an active certificate binds. -/
def certificateBoundDigests (certificates : List Value) : Py (List HashKey) := do
  let active ← filterPy (fun certificate => do
      match certificate with
      | .dict certificate =>
        let version ← (Dict.get certificate "certificate_version").hashKey
        return decide (version ∈ [.number 2, .number 3]) &&
          decide (Dict.getD certificate "evidence_binding_status" (.str "active") = .str "active")
      | _ => return false) certificates
  active.mapM fun certificate => do
    (Dict.get (← certificate.asDict) "originality_evidence_digest").hashKey

/-- The fields of evidence that the table is synchronized by. -/
structure Evidence where
  referenceHeight : Int
  referenceBlockHash : Value
  digest : String
  profile : Bool

/-- The reference and the digest of evidence. -/
def readEvidence (evidence : Dict) : Py Evidence := do
  return {
    referenceHeight := ← (← Dict.index evidence "originality_reference_height").toInt
    referenceBlockHash := ← Dict.index evidence "originality_reference_block_hash"
    digest := (← Dict.index evidence "canonical_evidence_digest").text h.toRuntime
    profile := decide (Dict.get evidence "certificate_verification_profile" =
      .str certificateEvidenceProfile) }

/-- The JSON of the inserted row, whose other columns have to be there, in the range of SQLite. -/
def rowJson (evidence : Dict) (referenceHeight : Int) : Py String := do
  ["evidence_version", "originality_rule_version", "content_hash", "final_prevote_decision",
    "reason_codes"].forM fun column => do
      let _ ← Dict.index evidence column
  require (referenceHeight < 2 ^ 63 ∧ -2 ^ 63 ≤ referenceHeight) {
    exc := .overflowError, message := "Python int too large to convert to SQLite INTEGER" }
  Json.dumps true (.dict evidence)

/-- The fields of the rows of matches. -/
def matchRows (evidence : Dict) : Py Unit :=
  ["exact_candidate_matches", "perceptual_candidate_matches", "ocr_candidate_matches",
    "near_duplicate_candidate_matches"].forM fun field => do
      (← (Dict.getD evidence field (.list [])).iter).forM fun found => do
        ["block_height", "block_hash", "content_hash"].forM fun column => do
          let _ ← found.item column

/-- Lines 2071–2085: another current revision has to make way. -/
def retireExisting (canonical : List (Int × String)) (bound : List HashKey)
    (rows : List EvidenceRow) (e : Evidence) : Option EvidenceRow → Py (List EvidenceRow)
  | none => .ok rows
  | some existing => do
    let isUnboundCertificateProfileMigration : Bool :=
      e.profile && !bound.contains (.str existing.evidenceDigest)
    require (existing.reference ∉ canonical ∨ isUnboundCertificateProfileMigration = true) {
      exc := .storageUniquenessError
      message :=
        "Immutable originality evidence cannot change while its reference remains canonical." }
    return retire rows existing.evidenceDigest (existing.reference ∉ canonical)

/-- Lines 2060–2119 for one submission; `old` is the table before the save. -/
def synchronizeOne (canonical : List (Int × String)) (bound : List HashKey)
    (old rows : List EvidenceRow) (submissionId : String) (evidence : Dict) :
    Py (List EvidenceRow) := do
  let e ← readEvidence h evidence
  match e.referenceBlockHash with
  | .str blockHash =>
    require ((e.referenceHeight, blockHash) ∈ canonical) {
      exc := .storageCorruptionError
      message := "Current originality evidence references a non-canonical block." }
    let existing := currentRow old submissionId
    if existing.map (·.evidenceDigest) = some e.digest then return rows
    else
      let rows ← retireExisting canonical bound rows e existing
      let evidenceJson ← rowJson evidence e.referenceHeight
      let rows := insertOrIgnore rows {
        evidenceDigest := e.digest, submissionId, referenceHeight := e.referenceHeight
        referenceBlockHash := blockHash, evidenceJson, isCurrent := true
        invalidatedByReorg := false }
      matchRows evidence
      return selectCurrent rows e.digest submissionId
  | _ => .error {
      exc := .storageCorruptionError
      message := "Current originality evidence references a non-canonical block." }

/-- `_synchronize_originality_evidence_records` of the sections of a document. -/
def synchronizeOriginalityEvidenceRecords (rows : List EvidenceRow) (document : Dict) :
    Py (List EvidenceRow) := do
  let records ← (document.getD "originality_evidence" (.list [])).listOrEmpty
  let evidence ← bySubmission h records
  let canonical ← canonicalBlocks h (← (document.getD "chain" (.list [])).listOrEmpty)
  let bound ← certificateBoundDigests
    (← (document.getD "originality_certificates" (.list [])).listOrEmpty)
  let missing := rows.filter fun r =>
    r.isCurrent && !(evidence.map Prod.fst).contains r.submissionId
  let cleared := missing.foldl (fun rows r => retire rows r.evidenceDigest true) rows
  (evidence.insertionSort fun a b => a.1 ≤ b.1).foldlM
    (fun new e => synchronizeOne h canonical bound rows new e.1 e.2) cleared

end Save

end Originality

end ZoidbergChain
