import ZoidbergChain.Originality.Records

/-!
# What a save does to the evidence table

A document, as far as the table depends on it, and the table after a save that goes through.

- `Snapshot` is what a document says: the evidence it holds, its blocks, the digests that its
  certificates bind.
- `updated` is what becomes of a row.
- `synchronize_spec`: the table after a save is the updated rows and the fresh ones.
-/

namespace ZoidbergChain

open Python

namespace Originality

attribute [local instance] lawfulBEq_reference

/-! ## Documents -/

/-- Evidence that a document holds. -/
structure Held where
  submissionId : String
  reference : Int × String
  digest : String
  profile : Bool
  deriving DecidableEq

/-- What a save takes from a document. -/
structure Snapshot where
  held : List Held
  canonical : List (Int × String)
  bound : List HashKey

/-- The evidence of a submission, if its reference is a block at all. -/
def heldOf (h : Host) (entry : String × Dict) : Py Held := do
  let e ← readEvidence h entry.2
  match e.referenceBlockHash with
  | .str blockHash => return ⟨entry.1, (e.referenceHeight, blockHash), e.digest, e.profile⟩
  | _ => .error {
      exc := .storageCorruptionError
      message := "Current originality evidence references a non-canonical block." }

theorem submissionId_of_heldOf {h : Host} {entry : String × Dict} {e : Held}
    (he : heldOf h entry = .ok e) : e.submissionId = entry.1 := by
  obtain ⟨read, -, he⟩ := bind_eq_ok.mp he
  split at he
  · rw [← pure_eq_ok.mp he]
  · cases he

def snapshotOf (h : Host) (document : Dict) : Py Snapshot := do
  let evidence ← bySubmission h
    (← (document.getD "originality_evidence" (.list [])).listOrEmpty)
  let canonical ← canonicalBlocks h (← (document.getD "chain" (.list [])).listOrEmpty)
  let bound ← certificateBoundDigests
    (← (document.getD "originality_certificates" (.list [])).listOrEmpty)
  let held ← (evidence.insertionSort fun a b => a.1 ≤ b.1).mapM (heldOf h)
  return { held, canonical, bound }

/-! ## Rows -/

/-- The digest of one of some rows. -/
def Known (rows : List EvidenceRow) (digest : String) : Prop :=
  ∃ r ∈ rows, r.evidenceDigest = digest

/-- The document holds the evidence of the row. -/
def isHeld (held : List Held) (r : EvidenceRow) : Bool :=
  held.any fun e => e.submissionId = r.submissionId && e.digest = r.evidenceDigest

/-- What becomes of a row. -/
def updated (held : List Held) (canonical : List (Int × String)) (r : EvidenceRow) :
    EvidenceRow :=
  { r with
    isCurrent := isHeld held r
    invalidatedByReorg :=
      if r.isCurrent = true ∧ isHeld held r = false then
        decide (r.reference ∉ canonical ∨ r.submissionId ∉ held.map Held.submissionId)
      else r.invalidatedByReorg }

/-- A table that the constraints of the database admit. -/
structure Wellformed (rows : List EvidenceRow) : Prop where
  digests : (rows.map EvidenceRow.evidenceDigest).Nodup
  one : ∀ r ∈ rows, ∀ r' ∈ rows, r.isCurrent = true → r'.isCurrent = true →
    r.submissionId = r'.submissionId → r = r'
  heights : ∀ r ∈ rows, 0 ≤ r.referenceHeight

/-- A digest is the one of a single submission and reference. -/
structure Compatible (rows : List EvidenceRow) (held : List Held) : Prop where
  rows : ∀ e ∈ held, ∀ r ∈ rows, r.evidenceDigest = e.digest →
    r.submissionId = e.submissionId ∧ r.reference = e.reference
  held : ∀ e ∈ held, ∀ e' ∈ held, e.digest = e'.digest → e.submissionId = e'.submissionId

/-- The rows that evidence of the document has been inserted as. -/
structure Fresh (old : List EvidenceRow) (held : List Held) (fresh : List EvidenceRow) : Prop where
  digests : (fresh.map EvidenceRow.evidenceDigest).Nodup
  row : ∀ r ∈ fresh, r.isCurrent = true ∧ r.invalidatedByReorg = false ∧ 0 ≤ r.referenceHeight ∧
    ¬Known old r.evidenceDigest ∧ ∃ e ∈ held, e.submissionId = r.submissionId ∧
      e.reference = r.reference ∧ e.digest = r.evidenceDigest
  inserted : ∀ e ∈ held, ¬Known old e.digest → 0 ≤ e.reference.1 → Known fresh e.digest

/-- A revision is only replaced when its reference has gone, or by the profile migration. -/
def Permitted (old : List EvidenceRow) (canonical : List (Int × String)) (bound : List HashKey)
    (e : Held) : Prop :=
  ∀ r ∈ old, r.isCurrent = true → r.submissionId = e.submissionId → r.evidenceDigest ≠ e.digest →
    r.reference ∉ canonical ∨ (e.profile = true ∧ .str r.evidenceDigest ∉ bound)

/-! ## One submission -/

section One

variable {h : Host} {canonical : List (Int × String)} {bound : List HashKey}
variable {old rows rows' : List EvidenceRow} {done rest : List Held}

/-- What becomes of a row while the evidence `rest` is still to come. -/
def updatedBy (canonical : List (Int × String)) (done rest : List Held) (r : EvidenceRow) :
    EvidenceRow :=
  if r.submissionId ∈ rest.map Held.submissionId then r else updated done canonical r

/-- The table in the middle of a save. -/
def Reached (old : List EvidenceRow) (canonical : List (Int × String)) (done rest : List Held)
    (rows : List EvidenceRow) : Prop :=
  ∃ fresh, rows = old.map (updatedBy canonical done rest) ++ fresh ∧ Fresh old done fresh

theorem currentRow_eq_none {sid : String} (hnone : currentRow old sid = none) {r : EvidenceRow}
    (hr : r ∈ old) (hid : r.submissionId = sid) : r.isCurrent = false := by
  have hnot := List.find?_eq_none.mp hnone r hr
  rw [Bool.and_eq_true, decide_eq_true_eq] at hnot
  exact Bool.eq_false_iff.mpr fun hcurrent => hnot ⟨hid, hcurrent⟩

theorem currentRow_eq_some {sid : String} {existing : EvidenceRow}
    (hsome : currentRow old sid = some existing) :
    existing ∈ old ∧ existing.submissionId = sid ∧ existing.isCurrent = true := by
  have hspec := List.find?_some hsome
  rw [Bool.and_eq_true, decide_eq_true_eq] at hspec
  exact ⟨List.mem_of_find?_eq_some hsome, hspec⟩

/-- The current row of the submission. -/
theorem eq_existing (hwf : Wellformed old) {sid : String} {existing : EvidenceRow}
    (hsome : currentRow old sid = some existing) {r : EvidenceRow} (hr : r ∈ old)
    (hcurrent : r.isCurrent = true) (hid : r.submissionId = sid) : r = existing := by
  obtain ⟨hmem, hid', hcurrent'⟩ := currentRow_eq_some hsome
  exact hwf.one r hr existing hmem hcurrent hcurrent' (hid.trans hid'.symm)

theorem eq_of_digest (hwf : Wellformed old) {r r' : EvidenceRow} (hr : r ∈ old) (hr' : r' ∈ old)
    (heq : r.evidenceDigest = r'.evidenceDigest) : r = r' :=
  List.inj_on_of_nodup_map hwf.digests hr hr' heq

theorem isHeld_iff {held : List Held} {r : EvidenceRow} : isHeld held r = true ↔
    ∃ e ∈ held, e.submissionId = r.submissionId ∧ e.digest = r.evidenceDigest := by
  simp [isHeld]

/-- Evidence of another submission does not matter to a row. -/
theorem updated_append_of_ne {e : Held} {r : EvidenceRow} (hne : r.submissionId ≠ e.submissionId) :
    updated (done ++ [e]) canonical r = updated done canonical r := by
  have hheld : isHeld (done ++ [e]) r = isHeld done r := by
    simp [isHeld, hne.symm]
  have hmem : r.submissionId ∈ (done ++ [e]).map Held.submissionId ↔
      r.submissionId ∈ done.map Held.submissionId := by
    simp [hne]
  simp only [updated, hheld, hmem]

/-- The evidence of its own submission is all that matters to a row. -/
theorem isHeld_append_self {e : Held} {r : EvidenceRow} (hid : r.submissionId = e.submissionId)
    (hnew : e.submissionId ∉ done.map Held.submissionId) :
    isHeld (done ++ [e]) r = decide (r.evidenceDigest = e.digest) := by
  have hnone : isHeld done r = false := by
    refine Bool.eq_false_iff.mpr fun hheld => hnew ?_
    obtain ⟨e', he', hid', -⟩ := isHeld_iff.mp hheld
    rw [← hid, ← hid']
    exact List.mem_map_of_mem he'
  rw [isHeld, List.any_append, show done.any _ = _ from hnone]
  simp [hid, eq_comm]

theorem updatedBy_of_ne {e : Held} {r : EvidenceRow} (hne : r.submissionId ≠ e.submissionId) :
    updatedBy canonical (done ++ [e]) rest r = updatedBy canonical done (e :: rest) r := by
  simp only [updatedBy, List.map_cons, List.mem_cons, hne, false_or, updated_append_of_ne hne]

theorem updatedBy_digest (r : EvidenceRow) :
    (updatedBy canonical done rest r).evidenceDigest = r.evidenceDigest ∧
      (updatedBy canonical done rest r).submissionId = r.submissionId := by
  unfold updatedBy
  split <;> exact ⟨rfl, rfl⟩

/-- The row of a submission whose evidence comes next, once the current one has made way. -/
def retired (canonical : List (Int × String)) (done rest : List Held) (e : Held)
    (r : EvidenceRow) : EvidenceRow :=
  if r.submissionId = e.submissionId ∧ r.isCurrent = true then
    { r with isCurrent := false, invalidatedByReorg := decide (r.reference ∉ canonical) }
  else updatedBy canonical done (e :: rest) r

theorem retired_digest (e : Held) (r : EvidenceRow) :
    (retired canonical done rest e r).evidenceDigest = r.evidenceDigest ∧
      (retired canonical done rest e r).submissionId = r.submissionId := by
  unfold retired
  split
  · exact ⟨rfl, rfl⟩
  · exact updatedBy_digest r

/-- The current row of the submission makes way. -/
theorem retire_existing {e : Held} (hwf : Wellformed old) {fresh : List EvidenceRow}
    (hfresh : Fresh old done fresh) {existing : EvidenceRow}
    (hsome : currentRow old e.submissionId = some existing) :
    retire (old.map (updatedBy canonical done (e :: rest)) ++ fresh) existing.evidenceDigest
        (decide (existing.reference ∉ canonical)) =
      old.map (retired canonical done rest e) ++ fresh := by
  obtain ⟨hmem, hid, hcurrent⟩ := currentRow_eq_some hsome
  rw [retire, List.map_append, List.map_map]
  congr 1
  · refine List.map_congr_left fun r hr => ?_
    show (if (updatedBy canonical done (e :: rest) r).evidenceDigest = _ then _ else _) = _
    rw [(updatedBy_digest r).1]
    by_cases heq : r.evidenceDigest = existing.evidenceDigest
    · obtain rfl := eq_of_digest hwf hr hmem heq
      rw [if_pos rfl, retired, if_pos ⟨hid, hcurrent⟩, updatedBy, if_pos (by simp [hid])]
    · have hother : ¬(r.submissionId = e.submissionId ∧ r.isCurrent = true) := fun h =>
        heq (congrArg _ (eq_existing hwf hsome hr h.2 h.1))
      rw [if_neg heq, retired, if_neg hother]
  · refine (List.map_congr_left fun r hr => ?_).trans (List.map_id fresh)
    have hne : r.evidenceDigest ≠ existing.evidenceDigest := fun heq =>
      (hfresh.row r hr).2.2.2.1 ⟨existing, hmem, heq.symm⟩
    exact if_neg hne

/-- Without a current row none has to. -/
theorem retired_of_none {e : Held} (hnone : currentRow old e.submissionId = none) :
    old.map (updatedBy canonical done (e :: rest)) = old.map (retired canonical done rest e) := by
  refine List.map_congr_left fun r hr => ?_
  have hother : ¬(r.submissionId = e.submissionId ∧ r.isCurrent = true) := by
    rintro ⟨hid, hcurrent⟩
    rw [currentRow_eq_none hnone hr hid] at hcurrent
    cases hcurrent
  rw [retired, if_neg hother]

section Step

variable {e : Held}
variable (hids : ((done ++ e :: rest).map Held.submissionId).Nodup)

include hids

theorem not_mem_done : e.submissionId ∉ done.map Held.submissionId := by
  rw [List.map_append, List.map_cons, List.nodup_append] at hids
  exact fun hmem => hids.2.2 _ hmem _ (List.mem_cons_self ..) rfl

theorem not_mem_rest : e.submissionId ∉ rest.map Held.submissionId := by
  rw [List.map_append, List.map_cons, List.nodup_append, List.nodup_cons] at hids
  exact hids.2.1.1

/-- A row of the submission, when its evidence has been synchronized. -/
theorem updatedBy_self {r : EvidenceRow} (hid : r.submissionId = e.submissionId) :
    updatedBy canonical (done ++ [e]) rest r =
      { r with
        isCurrent := decide (r.evidenceDigest = e.digest)
        invalidatedByReorg :=
          if r.isCurrent = true ∧ r.evidenceDigest ≠ e.digest then decide (r.reference ∉ canonical)
          else r.invalidatedByReorg } := by
  have hmem : r.submissionId ∈ (done ++ [e]).map Held.submissionId := by simp [hid]
  rw [updatedBy, if_neg (by rw [hid]; exact not_mem_rest hids), updated,
    isHeld_append_self hid (not_mem_done hids)]
  simp only [hmem, not_true_eq_false, or_false, decide_eq_false_iff_not, ne_eq]

/-- Nothing changes when the evidence of the submission is current. -/
theorem reached_of_current (hwf : Wellformed old) {existing : EvidenceRow}
    (hsome : currentRow old e.submissionId = some existing)
    (hdigest : existing.evidenceDigest = e.digest)
    (hreached : Reached old canonical done (e :: rest) rows) :
    Reached old canonical (done ++ [e]) rest rows := by
  obtain ⟨fresh, rfl, hfresh⟩ := hreached
  obtain ⟨hmem, hid, hcurrent⟩ := currentRow_eq_some hsome
  refine ⟨fresh, ?_, ⟨hfresh.digests, fun r hr => ?_, fun e' he' hnot hheight => ?_⟩⟩
  · congr 1
    refine List.map_congr_left fun r hr => ?_
    by_cases hr' : r.submissionId = e.submissionId
    · have hiff : r.isCurrent = true ↔ r.evidenceDigest = e.digest := by
        constructor
        · intro hc
          rw [eq_existing hwf hsome hr hc hr', hdigest]
        · intro heq
          rw [eq_of_digest hwf hr hmem (heq.trans hdigest.symm)]
          exact hcurrent
      rw [updatedBy_self hids hr', updatedBy, if_pos (by simp [hr'])]
      have hboth : ¬(r.isCurrent = true ∧ r.evidenceDigest ≠ e.digest) :=
        fun h => h.2 (hiff.mp h.1)
      rw [if_neg hboth, ← Bool.decide_congr hiff, Bool.decide_eq_true]
    · exact (updatedBy_of_ne hr').symm
  · obtain ⟨hc, hi, hh, hk, e', he', hrest⟩ := hfresh.row r hr
    exact ⟨hc, hi, hh, hk, e', List.mem_append_left _ he', hrest⟩
  · rcases List.mem_append.mp he' with he' | he'
    · exact hfresh.inserted e' he' hnot hheight
    · rw [List.mem_singleton.mp he'] at hnot
      exact absurd ⟨existing, hmem, hdigest⟩ hnot

/-- What the last update makes of the rows that were there. -/
theorem select_retired (hother : ∀ r ∈ old, r.isCurrent = true →
      r.submissionId = e.submissionId → r.evidenceDigest ≠ e.digest) :
    selectCurrent (old.map (retired canonical done rest e)) e.digest e.submissionId =
      old.map (updatedBy canonical (done ++ [e]) rest) := by
  rw [selectCurrent, List.map_map]
  refine List.map_congr_left fun r hr => ?_
  show (if (retired canonical done rest e r).submissionId = _ then _ else _) = _
  rw [(retired_digest e r).1, (retired_digest e r).2]
  by_cases hid : r.submissionId = e.submissionId
  · rw [if_pos hid, updatedBy_self hids hid]
    by_cases hcurrent : r.isCurrent = true
    · rw [retired, if_pos ⟨hid, hcurrent⟩, if_pos ⟨hcurrent, hother r hr hcurrent hid⟩]
    · rw [retired, if_neg fun h => hcurrent h.2, if_neg fun h => hcurrent h.1, updatedBy,
        if_pos (by simp [hid])]
  · rw [if_neg hid, updatedBy_of_ne hid, retired, if_neg fun h => hid h.1]

/-- Fresh rows are of other submissions. -/
theorem fresh_ne {fresh : List EvidenceRow} (hfresh : Fresh old done fresh) {r : EvidenceRow}
    (hr : r ∈ fresh) : r.submissionId ≠ e.submissionId := by
  intro heq
  obtain ⟨-, -, -, -, e', he', hid, -⟩ := hfresh.row r hr
  refine not_mem_done hids ?_
  rw [← heq, ← hid]
  exact List.mem_map_of_mem he'

theorem select_fresh {fresh : List EvidenceRow} (hfresh : Fresh old done fresh) :
    selectCurrent fresh e.digest e.submissionId = fresh := by
  refine (List.map_congr_left fun r hr => ?_).trans (List.map_id fresh)
  exact if_neg (fresh_ne hids hfresh hr)

/-- The evidence of a submission becomes current. -/
theorem reached_of_inserted {fresh : List EvidenceRow} (hfresh : Fresh old done fresh)
    (hother : ∀ r ∈ old, r.isCurrent = true → r.submissionId = e.submissionId →
      r.evidenceDigest ≠ e.digest)
    (hcompatible : Compatible old (done ++ e :: rest)) {row : EvidenceRow}
    (hrow : row.submissionId = e.submissionId ∧ row.reference = e.reference ∧
      row.evidenceDigest = e.digest ∧ row.isCurrent = true ∧ row.invalidatedByReorg = false) :
    Reached old canonical (done ++ [e]) rest
      (selectCurrent (insertOrIgnore (old.map (retired canonical done rest e) ++ fresh) row)
        e.digest e.submissionId) := by
  obtain ⟨hid, href, hdigest, hcurrent, hmark⟩ := hrow
  have hselect : selectCurrent (old.map (retired canonical done rest e) ++ fresh) e.digest
      e.submissionId = old.map (updatedBy canonical (done ++ [e]) rest) ++ fresh := by
    rw [← select_retired hids hother]
    conv_rhs => rw [← select_fresh hids hfresh]
    exact List.map_append
  have hheight : row.referenceHeight = e.reference.1 := congrArg Prod.fst href
  -- a digest of a fresh row is the one of another submission
  have hnofresh : ¬Known fresh e.digest := by
    rintro ⟨r, hr, heq⟩
    obtain ⟨-, -, -, -, e', he', hid', -, hdigest'⟩ := hfresh.row r hr
    refine fresh_ne hids hfresh hr (hid'.symm.trans ?_)
    exact hcompatible.held e' (List.mem_append_left _ he') e (by simp) (hdigest'.trans heq)
  have hkept : ∀ r ∈ fresh, r.isCurrent = true ∧ r.invalidatedByReorg = false ∧
      0 ≤ r.referenceHeight ∧ ¬Known old r.evidenceDigest ∧ ∃ e' ∈ done ++ [e],
        e'.submissionId = r.submissionId ∧ e'.reference = r.reference ∧
          e'.digest = r.evidenceDigest := by
    intro r hr
    obtain ⟨hc, hi, hh, hk, e', he', hrest⟩ := hfresh.row r hr
    exact ⟨hc, hi, hh, hk, e', List.mem_append_left _ he', hrest⟩
  by_cases hskip : row.referenceHeight < 0 ∨ Known old e.digest
  · have hignored : insertOrIgnore (old.map (retired canonical done rest e) ++ fresh) row =
        old.map (retired canonical done rest e) ++ fresh := by
      refine if_pos (hskip.imp_right fun ⟨r, hr, heq⟩ => Or.inl ?_)
      refine ⟨retired canonical done rest e r, by simp [List.mem_map_of_mem hr], ?_⟩
      rw [(retired_digest e r).1, heq, hdigest]
    rw [hignored, hselect]
    refine ⟨fresh, rfl, hfresh.digests, hkept, fun e' he' hnot hnonneg => ?_⟩
    rcases List.mem_append.mp he' with he' | he'
    · exact hfresh.inserted e' he' hnot hnonneg
    · rw [List.mem_singleton.mp he'] at hnot hnonneg
      rcases hskip with hneg | hknown
      · omega
      · exact absurd hknown hnot
  · rw [not_or] at hskip
    have hinserted : insertOrIgnore (old.map (retired canonical done rest e) ++ fresh) row =
        old.map (retired canonical done rest e) ++ fresh ++ [row] := by
      refine if_neg ?_
      rintro (hneg | ⟨r, hr, heq⟩ | ⟨-, r, hr, hsame, hc⟩)
      · exact hskip.1 hneg
      · rw [hdigest] at heq
        rcases List.mem_append.mp hr with hr | hr
        · obtain ⟨r₀, hr₀, rfl⟩ := List.mem_map.mp hr
          rw [(retired_digest e r₀).1] at heq
          exact hskip.2 ⟨r₀, hr₀, heq⟩
        · exact hnofresh ⟨r, hr, heq⟩
      · rw [hid] at hsame
        rcases List.mem_append.mp hr with hr | hr
        · obtain ⟨r₀, hr₀, rfl⟩ := List.mem_map.mp hr
          rw [(retired_digest e r₀).2] at hsame
          by_cases hboth : r₀.submissionId = e.submissionId ∧ r₀.isCurrent = true
          · rw [retired, if_pos hboth] at hc
            cases hc
          · rw [retired, if_neg hboth, updatedBy, if_pos (by simp [hsame])] at hc
            exact hboth ⟨hsame, hc⟩
        · exact fresh_ne hids hfresh hr hsame
    have hrow' : selectCurrent [row] e.digest e.submissionId = [row] := by
      show [if row.submissionId = _ then _ else _] = _
      rw [if_pos hid, decide_eq_true hdigest, ← hcurrent]
    have happend : ∀ xs ys, selectCurrent (xs ++ ys) e.digest e.submissionId =
        selectCurrent xs e.digest e.submissionId ++ selectCurrent ys e.digest e.submissionId :=
      fun xs ys => List.map_append
    rw [hinserted, happend, hselect, hrow', List.append_assoc]
    refine ⟨fresh ++ [row], rfl, ?_, fun r hr => ?_, fun e' he' hnot hnonneg => ?_⟩
    · rw [List.map_append, List.nodup_append]
      refine ⟨hfresh.digests, List.nodup_singleton _, ?_⟩
      rintro d hd d' hd' rfl
      rw [List.map_singleton, List.mem_singleton, hdigest] at hd'
      obtain ⟨r, hr, heq⟩ := List.mem_map.mp hd
      exact hnofresh ⟨r, hr, heq.trans hd'⟩
    · rcases List.mem_append.mp hr with hr | hr
      · exact hkept r hr
      · rw [List.mem_singleton.mp hr, hdigest]
        exact ⟨hcurrent, hmark, not_lt.mp hskip.1, hskip.2, e, by simp, hid.symm, href.symm, rfl⟩
    · rcases List.mem_append.mp he' with he' | he'
      · obtain ⟨r, hr, heq⟩ := hfresh.inserted e' he' hnot hnonneg
        exact ⟨r, List.mem_append_left _ hr, heq⟩
      · rw [List.mem_singleton.mp he']
        exact ⟨row, by simp, hdigest⟩

/-- One submission of a save. -/
theorem synchronizeOne_spec (hwf : Wellformed old)
    (hcompatible : Compatible old (done ++ e :: rest)) {evidence : Dict}
    (he : heldOf h (e.submissionId, evidence) = .ok e)
    (hreached : Reached old canonical done (e :: rest) rows)
    (hok : synchronizeOne h canonical bound old rows e.submissionId evidence = .ok rows') :
    Reached old canonical (done ++ [e]) rest rows' ∧ Permitted old canonical bound e ∧
      e.reference ∈ canonical := by
  obtain ⟨read, hread, he⟩ := bind_eq_ok.mp he
  obtain ⟨read', hread', hok⟩ := bind_eq_ok.mp hok
  obtain rfl := Except.ok.inj (hread.symm.trans hread')
  cases hhash : read.referenceBlockHash with
  | str blockHash =>
    rw [hhash] at he hok
    have heq : (⟨e.submissionId, (read.referenceHeight, blockHash), read.digest, read.profile⟩ :
      Held) = e := pure_eq_ok.mp he
    have href : e.reference = (read.referenceHeight, blockHash) := by rw [← heq]
    have hdigest : e.digest = read.digest := by rw [← heq]
    have hprofile : e.profile = read.profile := by rw [← heq]
    obtain ⟨_, hcanonical, hok⟩ := bind_eq_ok.mp hok
    have hcanonical := require_eq_ok.mp hcanonical
    rw [← href] at hcanonical
    dsimp only at hok
    rw [← hdigest] at hok
    split_ifs at hok with hsame
    · obtain ⟨existing, hsome, hdig⟩ := Option.map_eq_some_iff.mp hsame
      obtain rfl := pure_eq_ok.mp hok
      refine ⟨reached_of_current hids hwf hsome hdig hreached, ?_, hcanonical⟩
      intro r hr hcurrent hid hne
      exact absurd ((congrArg _ (eq_existing hwf hsome hr hcurrent hid)).trans hdig) hne
    · obtain ⟨fresh, rfl, hfresh⟩ := hreached
      obtain ⟨rows, hrows, hok⟩ := bind_eq_ok.mp hok
      obtain ⟨evidenceJson, -, hok⟩ := bind_eq_ok.mp hok
      obtain ⟨_, -, hok⟩ := bind_eq_ok.mp hok
      obtain rfl := pure_eq_ok.mp hok
      have hother : ∀ r ∈ old, r.isCurrent = true → r.submissionId = e.submissionId →
          r.evidenceDigest ≠ e.digest := by
        intro r hr hcurrent hid heq
        refine hsame ?_
        cases hfind : currentRow old e.submissionId with
        | none =>
          rw [currentRow_eq_none hfind hr hid] at hcurrent
          cases hcurrent
        | some existing =>
          rw [Option.map_some, ← eq_existing hwf hfind hr hcurrent hid, heq]
      have hretired : rows = old.map (retired canonical done rest e) ++ fresh ∧
          Permitted old canonical bound e := by
        cases hfind : currentRow old e.submissionId with
        | none =>
          rw [hfind] at hrows
          obtain rfl := Except.ok.inj hrows
          refine ⟨by rw [retired_of_none hfind], fun r hr hcurrent hid => ?_⟩
          rw [currentRow_eq_none hfind hr hid] at hcurrent
          cases hcurrent
        | some existing =>
          rw [hfind] at hrows
          obtain ⟨_, hpermitted, hrows⟩ := bind_eq_ok.mp hrows
          obtain rfl := pure_eq_ok.mp hrows
          refine ⟨retire_existing hwf hfresh hfind, fun r hr hcurrent hid _ => ?_⟩
          obtain rfl := eq_existing hwf hfind hr hcurrent hid
          refine (require_eq_ok.mp hpermitted).imp_right fun hmigration => ?_
          rw [Bool.and_eq_true, Bool.not_eq_true', List.contains_eq_mem,
            decide_eq_false_iff_not, ← hprofile] at hmigration
          exact hmigration
      obtain ⟨rfl, hpermitted⟩ := hretired
      refine ⟨?_, hpermitted, hcanonical⟩
      exact reached_of_inserted hids hfresh hother hcompatible
        ⟨rfl, href.symm, rfl, rfl, rfl⟩
  | _ =>
    rw [hhash] at he
    cases he

end Step

end One

/-! ## A whole save -/

section Save

variable {h : Host} {canonical : List (Int × String)} {bound : List HashKey}
variable {old rows rows' : List EvidenceRow}

theorem foldl_retire (missing rows : List EvidenceRow) :
    missing.foldl (fun rows r => retire rows r.evidenceDigest true) rows =
      rows.map fun r => if r.evidenceDigest ∈ missing.map EvidenceRow.evidenceDigest then
        { r with isCurrent := false, invalidatedByReorg := true } else r := by
  induction missing generalizing rows with
  | nil => simp
  | cons m missing ih =>
    rw [List.foldl_cons, ih, retire, List.map_map]
    refine List.map_congr_left fun r _ => ?_
    by_cases hm : r.evidenceDigest = m.evidenceDigest
    · simp [hm]
    · simp [hm]

/-- The revisions of submissions that the document leaves out. -/
theorem reached_of_cleared (hwf : Wellformed old) (held : List Held) (ids : List String)
    (hids : ∀ i, i ∈ ids ↔ i ∈ held.map Held.submissionId) :
    Reached old canonical [] held
      ((old.filter fun r => r.isCurrent && !ids.contains r.submissionId).foldl
        (fun rows r => retire rows r.evidenceDigest true) old) := by
  refine ⟨[], ?_, List.nodup_nil, by simp, by simp⟩
  rw [foldl_retire, List.append_nil]
  refine List.map_congr_left fun r hr => ?_
  have hmem : r.evidenceDigest ∈ (old.filter fun r =>
      r.isCurrent && !ids.contains r.submissionId).map EvidenceRow.evidenceDigest ↔
        r.isCurrent = true ∧ r.submissionId ∉ held.map Held.submissionId := by
    rw [← hids, List.mem_map]
    constructor
    · rintro ⟨r', hr', heq⟩
      obtain ⟨hmem, hboth⟩ := List.mem_filter.mp hr'
      obtain rfl := eq_of_digest hwf hmem hr heq
      simpa using hboth
    · intro hboth
      exact ⟨r, List.mem_filter.mpr ⟨hr, by simpa using hboth⟩, rfl⟩
  by_cases hmissing : r.submissionId ∈ held.map Held.submissionId
  · rw [if_neg fun hm => (hmem.mp hm).2 hmissing, updatedBy, if_pos hmissing]
  · rw [updatedBy, if_neg hmissing]
    by_cases hcurrent : r.isCurrent = true
    · rw [if_pos (hmem.mpr ⟨hcurrent, hmissing⟩)]
      simp [updated, isHeld, hcurrent]
    · rw [if_neg fun hm => hcurrent (hmem.mp hm).1]
      have hfalse := Bool.eq_false_iff.mpr hcurrent
      obtain ⟨_, _, _, _, _, _, _⟩ := r
      simp_all [updated, isHeld]

/-- The evidence of all submissions. -/
theorem foldlM_synchronizeOne (hwf : Wellformed old) {done rest : List Held}
    {entries : List (String × Dict)} (hheld : entries.mapM (heldOf h) = .ok rest)
    (hids : ((done ++ rest).map Held.submissionId).Nodup)
    (hcompatible : Compatible old (done ++ rest)) (hreached : Reached old canonical done rest rows)
    (hok : entries.foldlM
      (fun new e => synchronizeOne h canonical bound old new e.1 e.2) rows = .ok rows') :
    Reached old canonical (done ++ rest) [] rows' ∧
      ∀ e ∈ rest, Permitted old canonical bound e ∧ e.reference ∈ canonical := by
  induction entries generalizing done rest rows with
  | nil =>
    rw [List.mapM_nil] at hheld
    obtain rfl := pure_eq_ok.mp hheld
    obtain rfl := foldlM_nil_eq_ok.mp hok
    rw [List.append_nil]
    exact ⟨hreached, by simp⟩
  | cons entry entries ih =>
    rw [List.mapM_cons] at hheld
    obtain ⟨e, he, hheld⟩ := bind_eq_ok.mp hheld
    obtain ⟨rest, hrest, ⟨⟩⟩ := bind_eq_ok.mp hheld
    obtain ⟨rows₁, hone, hok⟩ := foldlM_cons_eq_ok.mp hok
    have hid : e.submissionId = entry.1 := submissionId_of_heldOf he
    obtain ⟨hreached₁, hpermitted, hcanonical⟩ := synchronizeOne_spec hids hwf hcompatible
      (by rw [hid]; exact he) hreached (by rw [hid]; exact hone)
    have hassoc : done ++ [e] ++ rest = done ++ e :: rest := by simp
    rw [← hassoc] at hids hcompatible
    obtain ⟨hreached', hall⟩ := ih hrest hids hcompatible hreached₁ hok
    rw [hassoc] at hreached'
    exact ⟨hreached', List.forall_mem_cons.mpr ⟨⟨hpermitted, hcanonical⟩, hall⟩⟩

/-- The submissions of a document are different. -/
theorem nodup_bySubmission {records : List Value} {evidence : List (String × Dict)}
    (hok : bySubmission h records = .ok evidence) : (evidence.map Prod.fst).Nodup := by
  unfold bySubmission at hok
  suffices hgen : ∀ (found : List (String × Dict)), (found.map Prod.fst).Nodup →
      records.foldlM (fun found raw => do
        let evidence ← validateOriginalityEvidence h raw
        let submissionId := strip ((← Dict.index evidence "submission_id").text h.toRuntime)
        require (submissionId ≠ "" ∧ submissionId ∉ found.map Prod.fst) {
          exc := .storageUniquenessError
          message := "Current originality evidence must be unique per submission." }
        return found ++ [(submissionId, evidence)]) found = .ok evidence →
      (evidence.map Prod.fst).Nodup from hgen [] List.nodup_nil hok
  clear hok
  induction records with
  | nil =>
    intro found hnodup hok
    rw [← foldlM_nil_eq_ok.mp hok]
    exact hnodup
  | cons raw records ih =>
    intro found hnodup hok
    obtain ⟨found', hone, hrest⟩ := foldlM_cons_eq_ok.mp hok
    refine ih found' ?_ hrest
    obtain ⟨record, -, hone⟩ := bind_eq_ok.mp hone
    obtain ⟨id, -, hone⟩ := bind_eq_ok.mp hone
    obtain ⟨_, hnew, hone⟩ := bind_eq_ok.mp hone
    rw [← pure_eq_ok.mp hone, List.map_append, List.nodup_append]
    refine ⟨hnodup, List.nodup_singleton _, ?_⟩
    rintro i hi j hj rfl
    rw [List.map_singleton, List.mem_singleton] at hj
    rw [hj] at hi
    exact (require_eq_ok.mp hnew).2 hi

theorem map_submissionId {entries : List (String × Dict)} {held : List Held}
    (hheld : entries.mapM (heldOf h) = .ok held) :
    held.map Held.submissionId = entries.map Prod.fst := by
  induction entries generalizing held with
  | nil =>
    rw [List.mapM_nil] at hheld
    rw [← pure_eq_ok.mp hheld]
    rfl
  | cons entry entries ih =>
    rw [List.mapM_cons] at hheld
    obtain ⟨e, he, hheld⟩ := bind_eq_ok.mp hheld
    obtain ⟨rest, hrest, ⟨⟩⟩ := bind_eq_ok.mp hheld
    rw [List.map_cons, List.map_cons, submissionId_of_heldOf he, ih hrest]

/-- Evidence that has been synchronized can be read. -/
theorem exists_held {entries : List (String × Dict)} (hok : entries.foldlM
      (fun new e => synchronizeOne h canonical bound old new e.1 e.2) rows = .ok rows') :
    ∃ held, entries.mapM (heldOf h) = .ok held := by
  induction entries generalizing rows with
  | nil => exact ⟨[], rfl⟩
  | cons entry entries ih =>
    obtain ⟨rows₁, hone, hrest⟩ := foldlM_cons_eq_ok.mp hok
    obtain ⟨held, hheld⟩ := ih hrest
    obtain ⟨read, hread, hone⟩ := bind_eq_ok.mp hone
    have hread' : ∃ e, heldOf h entry = .ok e := by
      cases hhash : read.referenceBlockHash with
      | str blockHash =>
        refine ⟨⟨entry.1, (read.referenceHeight, blockHash), read.digest, read.profile⟩, ?_⟩
        rw [heldOf, hread, ok_bind, hhash]
        rfl
      | _ =>
        rw [hhash] at hone
        cases hone
    obtain ⟨e, he⟩ := hread'
    exact ⟨e :: held, by rw [List.mapM_cons, he, hheld]; rfl⟩

/-- A save that goes through: the document can be read, and the table has the updated rows and
the fresh ones. -/
theorem synchronize_spec {document : Dict}
    (hok : synchronizeOriginalityEvidenceRecords h old document = .ok rows') :
    ∃ s, snapshotOf h document = .ok s ∧ (s.held.map Held.submissionId).Nodup ∧
      (Wellformed old → Compatible old s.held →
        (∃ fresh, rows' = old.map (updated s.held s.canonical) ++ fresh ∧
          Fresh old s.held fresh) ∧
        ∀ e ∈ s.held, Permitted old s.canonical s.bound e ∧ e.reference ∈ s.canonical) := by
  obtain ⟨records, hrecords, hok⟩ := bind_eq_ok.mp hok
  obtain ⟨evidence, hevidence, hok⟩ := bind_eq_ok.mp hok
  obtain ⟨chain, hchain, hok⟩ := bind_eq_ok.mp hok
  obtain ⟨canonical, hcanonical, hok⟩ := bind_eq_ok.mp hok
  obtain ⟨certificates, hcertificates, hok⟩ := bind_eq_ok.mp hok
  obtain ⟨bound, hbound, hok⟩ := bind_eq_ok.mp hok
  obtain ⟨held, hheld⟩ := exists_held hok
  have hperm : (evidence.insertionSort fun a b => a.1 ≤ b.1).Perm evidence :=
    List.perm_insertionSort _ _
  have hids := map_submissionId hheld
  have hnodup : (held.map Held.submissionId).Nodup := by
    rw [hids]
    exact (hperm.map _).nodup_iff.mpr (nodup_bySubmission hevidence)
  refine ⟨⟨held, canonical, bound⟩, ?_, hnodup, fun hwf hcompatible => ?_⟩
  · simp only [snapshotOf, hrecords, hevidence, hchain, hcanonical, hcertificates, hbound, hheld,
      ok_bind]
    rfl
  · have hcleared : Reached old canonical [] held _ :=
      reached_of_cleared hwf held (evidence.map Prod.fst) fun i => by
        rw [hids]
        exact (hperm.map _).mem_iff.symm
    obtain ⟨⟨fresh, hrows, hfresh⟩, hall⟩ := foldlM_synchronizeOne hwf hheld
      (show (([] ++ held).map Held.submissionId).Nodup from hnodup)
      (show Compatible old ([] ++ held) from hcompatible) hcleared hok
    have hmap : old.map (updatedBy canonical ([] ++ held) []) = old.map (updated held canonical) :=
      List.map_congr_left fun r _ => if_neg (by simp)
    rw [hmap] at hrows
    exact ⟨⟨fresh, hrows, hfresh⟩, hall⟩

end Save

end Originality

end ZoidbergChain
