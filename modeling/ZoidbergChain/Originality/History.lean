import ZoidbergChain.Originality.Saves

/-!
# The history of originality evidence

Any number of saves, of any documents, on a table that starts empty.

- `commits` are the saves that go through; the others change nothing.
- `Lawful` is what the table is to keep in one save, `Immutable` over all of them.
- `Meets` is what a document has to meet: evidence is left out only when its reference has gone,
  and none comes back that a reorganization has marked.
- `immutable_iff`: the saves keep the history exactly when all documents meet that.
-/

namespace ZoidbergChain

open Python

namespace Originality

attribute [local instance] lawfulBEq_reference

/-! ## Saves -/

/-- A save that goes through. -/
structure Commit where
  before : List EvidenceRow
  document : Snapshot
  after : List EvidenceRow

/-- The saves that go through. -/
def commits (h : Host) (rows : List EvidenceRow) : List Dict → List Commit
  | [] => []
  | document :: documents =>
    match synchronizeOriginalityEvidenceRecords h rows document, snapshotOf h document with
    | .ok rows', .ok s => ⟨rows, s, rows'⟩ :: commits h rows' documents
    | _, _ => commits h rows documents

/-- What the row of a digest never changes. -/
structure EvidenceRow.SameRevision (r r' : EvidenceRow) : Prop where
  submissionId : r.submissionId = r'.submissionId
  reference : r.reference = r'.reference
  evidenceJson : r.evidenceJson = r'.evidenceJson

/-- What a save keeps. -/
structure Lawful (c : Commit) : Prop where
  /-- No row is deleted or changed. -/
  kept : ∀ r ∈ c.before, Known c.after r.evidenceDigest ∧
    ∀ r' ∈ c.after, r'.evidenceDigest = r.evidenceDigest → r.SameRevision r'
  /-- The evidence of the document is current, and nothing else is. -/
  current : ∀ e ∈ c.document.held, (∃! r, r ∈ c.after ∧ r.submissionId = e.submissionId ∧
    r.isCurrent = true) ∧ ∀ r ∈ c.after, r.submissionId = e.submissionId → r.isCurrent = true →
      r.evidenceDigest = e.digest
  held : ∀ r ∈ c.after, r.isCurrent = true →
    r.submissionId ∈ c.document.held.map Held.submissionId
  unmarked : ∀ r ∈ c.after, r.isCurrent = true → r.invalidatedByReorg = false
  /-- A row is marked when it stops being current because its reference has gone. -/
  marks : ∀ r ∈ c.before, ∀ r' ∈ c.after, r'.evidenceDigest = r.evidenceDigest →
    r.invalidatedByReorg = false → (r'.invalidatedByReorg = true ↔
      r.isCurrent = true ∧ r'.isCurrent = false ∧ r.reference ∉ c.document.canonical)

/-- What the table keeps over all saves. -/
structure Immutable (cs : List Commit) : Prop where
  lawful : ∀ c ∈ cs, Lawful c
  /-- Two current revisions in a row are one, or the reference of the first was gone in between, or
  no certificate had bound it and the second has the certificate profile. -/
  successive : ∀ front c mid c' back, cs = front ++ c :: (mid ++ c' :: back) →
    ∀ r ∈ c.after, r.isCurrent = true →
    (∀ m ∈ mid, ∀ r' ∈ m.after, r'.submissionId = r.submissionId → r'.isCurrent = false) →
    ∀ r' ∈ c'.after, r'.isCurrent = true → r'.submissionId = r.submissionId →
      r'.evidenceDigest = r.evidenceDigest ∨
        (∃ m ∈ mid ++ [c'], r.reference ∉ m.document.canonical) ∨
        ∃ e ∈ c'.document.held, e.submissionId = r.submissionId ∧ e.profile = true ∧
          .str r.evidenceDigest ∉ c'.document.bound

/-- What a document has to meet, given the table that it is saved to. -/
structure Meets (c : Commit) : Prop where
  heights : ∀ e ∈ c.document.held, 0 ≤ e.reference.1
  omitted : ∀ r ∈ c.before, r.isCurrent = true →
    r.submissionId ∉ c.document.held.map Held.submissionId → r.reference ∉ c.document.canonical
  returned : ∀ e ∈ c.document.held, ∀ r ∈ c.before, r.evidenceDigest = e.digest →
    r.isCurrent = false → r.invalidatedByReorg = false

instance (c : Commit) : Decidable (Meets c) :=
  decidable_of_iff ((∀ e ∈ c.document.held, 0 ≤ e.reference.1) ∧
      (∀ r ∈ c.before, r.isCurrent = true →
        r.submissionId ∉ c.document.held.map Held.submissionId →
        r.reference ∉ c.document.canonical) ∧
      ∀ e ∈ c.document.held, ∀ r ∈ c.before, r.evidenceDigest = e.digest →
        r.isCurrent = false → r.invalidatedByReorg = false)
    ⟨fun h => ⟨h.1, h.2.1, h.2.2⟩, fun h => ⟨h.heights, h.omitted, h.returned⟩⟩

/-- All evidence of some saves. -/
def allHeld (cs : List Commit) : List Held := cs.flatMap fun c => c.document.held

/-- The submission and the reference are part of what a digest is the SHA-256 of. -/
def OneDigest (held : List Held) : Prop :=
  ∀ e ∈ held, ∀ e' ∈ held, e.digest = e'.digest →
    e.submissionId = e'.submissionId ∧ e.reference = e'.reference

instance (held : List Held) : Decidable (OneDigest held) :=
  inferInstanceAs (Decidable (∀ e ∈ held, ∀ e' ∈ held, e.digest = e'.digest →
    e.submissionId = e'.submissionId ∧ e.reference = e'.reference))

/-! ## One save -/

/-- A save of a table that the constraints of the database admit. -/
structure Commit.Spec (c : Commit) : Prop where
  wellformed : Wellformed c.before
  compatible : Compatible c.before c.document.held
  submissions : (c.document.held.map Held.submissionId).Nodup
  rows : ∃ fresh, c.after = c.before.map (updated c.document.held c.document.canonical) ++ fresh ∧
    Fresh c.before c.document.held fresh
  permitted : ∀ e ∈ c.document.held,
    Permitted c.before c.document.canonical c.document.bound e

section Save

variable {c : Commit} (hc : c.Spec)

include hc

/-- A row of the table after the save. -/
theorem mem_after {r' : EvidenceRow} (hr' : r' ∈ c.after) :
    (∃ r ∈ c.before, r' = updated c.document.held c.document.canonical r) ∨
      (r'.isCurrent = true ∧ r'.invalidatedByReorg = false ∧ 0 ≤ r'.referenceHeight ∧
        ¬Known c.before r'.evidenceDigest ∧ ∃ e ∈ c.document.held,
          e.submissionId = r'.submissionId ∧ e.reference = r'.reference ∧
            e.digest = r'.evidenceDigest) := by
  obtain ⟨fresh, hafter, hfresh⟩ := hc.rows
  rw [hafter] at hr'
  rcases List.mem_append.mp hr' with hr' | hr'
  · obtain ⟨r, hr, rfl⟩ := List.mem_map.mp hr'
    exact Or.inl ⟨r, hr, rfl⟩
  · exact Or.inr (hfresh.row r' hr')

theorem updated_mem {r : EvidenceRow} (hr : r ∈ c.before) :
    updated c.document.held c.document.canonical r ∈ c.after := by
  obtain ⟨fresh, hafter, -⟩ := hc.rows
  rw [hafter]
  exact List.mem_append_left _ (List.mem_map_of_mem hr)

/-- The row of a digest that was there is the updated one. -/
theorem eq_updated {r r' : EvidenceRow} (hr : r ∈ c.before) (hr' : r' ∈ c.after)
    (hdigest : r'.evidenceDigest = r.evidenceDigest) :
    r' = updated c.document.held c.document.canonical r := by
  rcases mem_after hc hr' with ⟨r₀, hr₀, rfl⟩ | ⟨-, -, -, hnot, -⟩
  · rw [eq_of_digest hc.wellformed hr₀ hr hdigest]
  · exact absurd ⟨r, hr, hdigest.symm⟩ hnot

/-- A current row is one of evidence that the document holds. -/
theorem held_of_current {r' : EvidenceRow} (hr' : r' ∈ c.after) (hcurrent : r'.isCurrent = true) :
    ∃ e ∈ c.document.held, e.submissionId = r'.submissionId ∧ e.digest = r'.evidenceDigest := by
  rcases mem_after hc hr' with ⟨r, hr, rfl⟩ | ⟨-, -, -, -, e, he, hid, -, hdigest⟩
  · exact isHeld_iff.mp hcurrent
  · exact ⟨e, he, hid, hdigest⟩

theorem wellformed_after : Wellformed c.after := by
  obtain ⟨fresh, hafter, hfresh⟩ := hc.rows
  have hdigests : (c.after.map EvidenceRow.evidenceDigest).Nodup := by
    have hmap : (c.before.map (updated c.document.held c.document.canonical)).map
        EvidenceRow.evidenceDigest = c.before.map EvidenceRow.evidenceDigest := by
      rw [List.map_map]
      rfl
    rw [hafter, List.map_append, hmap, List.nodup_append]
    refine ⟨hc.wellformed.digests, hfresh.digests, ?_⟩
    rintro d hd d' hd' rfl
    obtain ⟨r, hr, rfl⟩ := List.mem_map.mp hd'
    obtain ⟨r₀, hr₀, heq⟩ := List.mem_map.mp hd
    exact (hfresh.row r hr).2.2.2.1 ⟨r₀, hr₀, heq⟩
  refine ⟨hdigests, fun r hr r' hr' hcurrent hcurrent' hid => ?_, fun r hr => ?_⟩
  · obtain ⟨e, he, hid₁, hdigest⟩ := held_of_current hc hr hcurrent
    obtain ⟨e', he', hid₂, hdigest'⟩ := held_of_current hc hr' hcurrent'
    obtain rfl := List.inj_on_of_nodup_map hc.submissions he he'
      (hid₁.trans (hid.trans hid₂.symm))
    exact List.inj_on_of_nodup_map hdigests hr hr' (hdigest.symm.trans hdigest')
  · rcases mem_after hc hr with ⟨r₀, hr₀, rfl⟩ | ⟨-, -, hheight, -⟩
    · exact hc.wellformed.heights r₀ hr₀
    · exact hheight

/-- Evidence of a height that is not negative has a current row. -/
theorem exists_current {e : Held} (he : e ∈ c.document.held) (hheight : 0 ≤ e.reference.1) :
    ∃ r ∈ c.after, r.submissionId = e.submissionId ∧ r.isCurrent = true := by
  by_cases hknown : Known c.before e.digest
  · obtain ⟨r, hr, hdigest⟩ := hknown
    have hid := (hc.compatible.rows e he r hr hdigest).1
    exact ⟨_, updated_mem hc hr, hid, isHeld_iff.mpr ⟨e, he, hid.symm, hdigest.symm⟩⟩
  · obtain ⟨fresh, hafter, hfresh⟩ := hc.rows
    obtain ⟨r, hr, hdigest⟩ := hfresh.inserted e he hknown hheight
    obtain ⟨hcurrent, -, -, -, e', he', hid, -, hdigest'⟩ := hfresh.row r hr
    refine ⟨r, by rw [hafter]; exact List.mem_append_right _ hr, ?_, hcurrent⟩
    exact hid.symm.trans (hc.compatible.held e' he' e he (hdigest'.trans hdigest))

/-- No current row is marked. -/
def Unmarked (rows : List EvidenceRow) : Prop :=
  ∀ r ∈ rows, r.isCurrent = true → r.invalidatedByReorg = false

theorem lawful_of_meets (hunmarked : Unmarked c.before) (hmeets : Meets c) : Lawful c where
  kept r hr := by
    refine ⟨⟨_, updated_mem hc hr, rfl⟩, fun r' hr' hdigest => ?_⟩
    rw [eq_updated hc hr hr' hdigest]
    exact ⟨rfl, rfl, rfl⟩
  current e he := by
    obtain ⟨r, hr, hid, hcurrent⟩ := exists_current hc he (hmeets.heights e he)
    refine ⟨⟨r, ⟨hr, hid, hcurrent⟩, ?_⟩, fun r' hr' hid' hcurrent' => ?_⟩
    · rintro r' ⟨hr', hid', hcurrent'⟩
      exact (wellformed_after hc).one r' hr' r hr hcurrent' hcurrent (hid'.trans hid.symm)
    · obtain ⟨e', he', hid₁, hdigest⟩ := held_of_current hc hr' hcurrent'
      rw [List.inj_on_of_nodup_map hc.submissions he he' (hid'.symm.trans hid₁.symm), hdigest]
  held r hr hcurrent := by
    obtain ⟨e, he, hid, -⟩ := held_of_current hc hr hcurrent
    rw [← hid]
    exact List.mem_map_of_mem he
  unmarked r' hr' hcurrent := by
    rcases mem_after hc hr' with ⟨r, hr, rfl⟩ | ⟨-, hmark, -⟩
    · have hheld : isHeld c.document.held r = true := hcurrent
      have hmark : r.invalidatedByReorg = false := by
        by_cases hbefore : r.isCurrent = true
        · exact hunmarked r hr hbefore
        · obtain ⟨e, he, -, hdigest⟩ := isHeld_iff.mp hheld
          exact hmeets.returned e he r hr hdigest.symm (Bool.eq_false_iff.mpr hbefore)
      show (if _ then _ else _) = false
      rw [if_neg (by simp [hheld]), hmark]
    · exact hmark
  marks r hr r' hr' hdigest hmark := by
    rw [eq_updated hc hr hr' hdigest]
    show (if _ then _ else _) = true ↔ r.isCurrent = true ∧ isHeld c.document.held r = false ∧ _
    by_cases hboth : r.isCurrent = true ∧ isHeld c.document.held r = false
    · have homitted : r.reference ∉ c.document.canonical ∨
          r.submissionId ∉ c.document.held.map Held.submissionId ↔
            r.reference ∉ c.document.canonical :=
        ⟨fun h => h.elim id (hmeets.omitted r hr hboth.1), Or.inl⟩
      rw [if_pos hboth, decide_eq_true_eq, homitted, hboth.1, hboth.2]
      simp
    · rw [if_neg hboth, hmark]
      simp only [Bool.false_eq_true, false_iff]
      exact fun h => hboth ⟨h.1, h.2.1⟩

theorem meets_of_lawful (hunmarked : Unmarked c.before) (hlawful : Lawful c) : Meets c where
  heights e he := by
    obtain ⟨⟨r, ⟨hr, hid, hcurrent⟩, -⟩, hdigest⟩ := hlawful.current e he
    have hdigest := hdigest r hr hid hcurrent
    rcases mem_after hc hr with ⟨r₀, hr₀, rfl⟩ | ⟨-, -, hheight, -, e', he', hid', href, -⟩
    · have href := (hc.compatible.rows e he r₀ hr₀ hdigest).2
      rw [← href]
      exact hc.wellformed.heights r₀ hr₀
    · rw [List.inj_on_of_nodup_map hc.submissions he he' (hid.symm.trans hid'.symm), href]
      exact hheight
  omitted r hr hcurrent homitted hmem := by
    have hnot : isHeld c.document.held r = false := by
      refine Bool.eq_false_iff.mpr fun hheld => homitted ?_
      obtain ⟨e, he, hid, -⟩ := isHeld_iff.mp hheld
      rw [← hid]
      exact List.mem_map_of_mem he
    -- such a row is marked although its reference is there
    have hmarked : (updated c.document.held c.document.canonical r).invalidatedByReorg = true := by
      show (if _ then _ else _) = true
      rw [if_pos ⟨hcurrent, hnot⟩]
      exact decide_eq_true (Or.inr homitted)
    exact ((hlawful.marks r hr _ (updated_mem hc hr) rfl (hunmarked r hr hcurrent)).mp
      hmarked).2.2 hmem
  returned e he r hr hdigest hcurrent := by
    have hid := (hc.compatible.rows e he r hr hdigest).1
    have hheld : isHeld c.document.held r = true :=
      isHeld_iff.mpr ⟨e, he, hid.symm, hdigest.symm⟩
    have hmark := hlawful.unmarked _ (updated_mem hc hr) hheld
    have hkept : (updated c.document.held c.document.canonical r).invalidatedByReorg =
        r.invalidatedByReorg := if_neg (by simp [hcurrent])
    rw [← hkept, hmark]

end Save

/-! ## All saves -/

/-- The saves that go through, each on the table that the last one has left. -/
inductive Run : List EvidenceRow → List Commit → Prop
  | nil (rows : List EvidenceRow) : Run rows []
  | cons {c : Commit} {cs : List Commit} (spec : c.Spec) (rest : Run c.after cs) :
    Run c.before (c :: cs)

/-- All rows are of evidence that has been saved. -/
def Sourced (past : List Held) (rows : List EvidenceRow) : Prop :=
  ∀ r ∈ rows, ∃ e ∈ past, e.submissionId = r.submissionId ∧ e.reference = r.reference ∧
    e.digest = r.evidenceDigest

theorem sourced_after {c : Commit} (hc : c.Spec) {past : List Held}
    (hsourced : Sourced past c.before) : Sourced (past ++ c.document.held) c.after := by
  intro r' hr'
  rcases mem_after hc hr' with ⟨r, hr, rfl⟩ | ⟨-, -, -, -, e, he, hrest⟩
  · obtain ⟨e, he, hrest⟩ := hsourced r hr
    exact ⟨e, List.mem_append_left _ he, hrest⟩
  · exact ⟨e, List.mem_append_right _ he, hrest⟩

/-- A digest is one of a single submission also in the table, as its rows have been saved. -/
theorem compatible_of_oneDigest {past held : List Held} {rows : List EvidenceRow}
    (hsourced : Sourced past rows) (hone : OneDigest (past ++ held)) : Compatible rows held where
  rows e he r hr hdigest := by
    obtain ⟨e', he', hid, href, hdigest'⟩ := hsourced r hr
    obtain ⟨hid', href'⟩ := hone e' (List.mem_append_left _ he') e (List.mem_append_right _ he)
      (hdigest'.trans hdigest)
    exact ⟨hid.symm.trans hid', href.symm.trans href'⟩
  held e he e' he' hdigest :=
    (hone e (List.mem_append_right _ he) e' (List.mem_append_right _ he') hdigest).1

theorem OneDigest.mono {held held' : List Held} (hone : OneDigest held')
    (hsub : ∀ e ∈ held, e ∈ held') : OneDigest held :=
  fun e he e' he' => hone e (hsub e he) e' (hsub e' he')

theorem run_commits (h : Host) {past : List Held} {rows : List EvidenceRow}
    (documents : List Dict) (hwf : Wellformed rows) (hsourced : Sourced past rows)
    (hone : OneDigest (past ++ allHeld (commits h rows documents))) :
    Run rows (commits h rows documents) := by
  induction documents generalizing past rows with
  | nil => exact .nil rows
  | cons document documents ih =>
    unfold commits at hone ⊢
    split
    · next rows' s hsave hsnapshot =>
      rw [hsave, hsnapshot] at hone
      obtain ⟨s', hsnapshot', hids, hspec⟩ := synchronize_spec hsave
      obtain rfl := Except.ok.inj (hsnapshot.symm.trans hsnapshot')
      have hone : OneDigest ((past ++ s.held) ++ allHeld (commits h rows' documents)) := by
        rw [List.append_assoc]
        exact hone
      have hcompatible := compatible_of_oneDigest hsourced
        (hone.mono fun e he => List.mem_append_left _ he)
      obtain ⟨hrows, hall⟩ := hspec hwf hcompatible
      have hc : Commit.Spec ⟨rows, s, rows'⟩ :=
        ⟨hwf, hcompatible, hids, hrows, fun e he => (hall e he).1⟩
      exact .cons hc (ih (wellformed_after hc) (sourced_after hc hsourced) hone)
    · next hnot =>
      split at hone
      · next rows' s hsave hsnapshot => exact absurd hsnapshot (hnot rows' s hsave)
      · exact ih hwf hsourced hone

theorem Run.drop {rows : List EvidenceRow} {front cs : List Commit}
    (hrun : Run rows (front ++ cs)) :
    ∃ rows', Run rows' cs := by
  induction front generalizing rows with
  | nil => exact ⟨rows, hrun⟩
  | cons c front ih =>
    cases hrun with
    | cons _ rest => exact ih rest

/-- The saves are lawful exactly when the documents meet the condition: either way no current row
is marked between two of them. -/
theorem lawful_iff_meets {rows : List EvidenceRow} {cs : List Commit} (hrun : Run rows cs)
    (hunmarked : Unmarked rows) : (∀ c ∈ cs, Lawful c) ↔ ∀ c ∈ cs, Meets c := by
  induction hrun with
  | nil => simp
  | @cons c cs hc hrest ih =>
    have hiff : Lawful c ↔ Meets c :=
      ⟨meets_of_lawful hc hunmarked, lawful_of_meets hc hunmarked⟩
    constructor
    · intro hall
      have hlawful := hall c (List.mem_cons_self ..)
      have hrest := (ih hlawful.unmarked).mp fun c' hc' => hall c' (List.mem_cons_of_mem _ hc')
      exact List.forall_mem_cons.mpr ⟨hiff.mp hlawful, hrest⟩
    · intro hall
      have hlawful := hiff.mpr (hall c (List.mem_cons_self ..))
      have hrest := (ih hlawful.unmarked).mpr fun c' hc' => hall c' (List.mem_cons_of_mem _ hc')
      exact List.forall_mem_cons.mpr ⟨hlawful, hrest⟩

/-- A revision that the next document leaves out has lost its reference. -/
theorem omitted_of_meets {c : Commit} (hc : c.Spec) (hmeets : Meets c) {r : EvidenceRow}
    (hr : r ∈ c.before) (hcurrent : r.isCurrent = true)
    (hnone : ∀ r' ∈ c.after, r'.submissionId = r.submissionId → r'.isCurrent = false) :
    r.reference ∉ c.document.canonical := by
  refine hmeets.omitted r hr hcurrent fun hheld => ?_
  obtain ⟨e, he, hid⟩ := List.mem_map.mp hheld
  obtain ⟨r', hr', hid', hcurrent'⟩ := exists_current hc he (hmeets.heights e he)
  rw [hnone r' hr' (hid'.trans hid)] at hcurrent'
  cases hcurrent'

/-- A revision that the next document replaces is one that it may replace. -/
theorem replaced_of_spec {c : Commit} (hc : c.Spec) {r r' : EvidenceRow} (hr : r ∈ c.before)
    (hcurrent : r.isCurrent = true) (hr' : r' ∈ c.after) (hcurrent' : r'.isCurrent = true)
    (hid : r'.submissionId = r.submissionId) :
    r'.evidenceDigest = r.evidenceDigest ∨ r.reference ∉ c.document.canonical ∨
      ∃ e ∈ c.document.held, e.submissionId = r.submissionId ∧ e.profile = true ∧
        .str r.evidenceDigest ∉ c.document.bound := by
  obtain ⟨e, he, hid', hdigest⟩ := held_of_current hc hr' hcurrent'
  by_cases hsame : r.evidenceDigest = e.digest
  · exact Or.inl (hdigest.symm.trans hsame.symm)
  · rcases hc.permitted e he r hr hcurrent (hid.symm.trans hid'.symm) hsame with hgone | hprofile
    · exact Or.inr (Or.inl hgone)
    · exact Or.inr (Or.inr ⟨e, he, hid'.trans hid, hprofile⟩)

theorem immutable_of_meets {rows : List EvidenceRow} {cs : List Commit} (hrun : Run rows cs)
    (hunmarked : Unmarked rows) (hmeets : ∀ c ∈ cs, Meets c) : Immutable cs where
  lawful := (lawful_iff_meets hrun hunmarked).mpr hmeets
  successive := by
    rintro front c mid c' back rfl r hr hcurrent hnone r' hr' hcurrent' hid
    obtain ⟨rows₁, hrun⟩ := hrun.drop
    cases hrun with
    | cons _ hrest =>
      cases mid with
      | nil =>
        generalize hafter : c.after = after at hrest
        cases hrest with
        | cons hspec' _ =>
          rw [hafter] at hr
          rcases replaced_of_spec hspec' hr hcurrent hr' hcurrent' hid with h | h | h
          · exact Or.inl h
          · exact Or.inr (Or.inl ⟨c', by simp, h⟩)
          · exact Or.inr (Or.inr h)
      | cons m mid =>
        generalize hafter : c.after = after at hrest
        cases hrest with
        | cons hm _ =>
          rw [hafter] at hr
          have hgone := omitted_of_meets hm (hmeets m (by simp)) hr hcurrent
            (hnone m (List.mem_cons_self ..))
          exact Or.inr (Or.inl ⟨m, by simp, hgone⟩)

/-! ### Two documents -/

def sampleBlockHash : String :=
  "aaaaaaaaaaaaaaaaaaaaaaaaaaaaaaaaaaaaaaaaaaaaaaaaaaaaaaaaaaaaaaaa"

def otherBlockHash : String :=
  "bbbbbbbbbbbbbbbbbbbbbbbbbbbbbbbbbbbbbbbbbbbbbbbbbbbbbbbbbbbbbbbb"

def sampleDigest : String :=
  "f6644f55d8d15bb60e6b7226613cda8630b37ee5a2e0e9ee8919e0b53563af6f"

/-- The SHA-256 of the one payload below. -/
def sampleHost : Host :=
  { Host.sample none none with
    sha256Hex := fun _ => sampleDigest
    sha256Hex_isHex64 := fun _ => by decide }

/-- A document of one block, and evidence that refers to it. -/
def sampleDocument : Dict :=
  [("chain", .list [.dict [("index", .int 7), ("hash", .str sampleBlockHash)]]),
    ("originality_evidence", .list [.dict [
      ("submission_id", .str "submission-1"), ("originality_rule_version", .int 1),
      ("evidence_version", .int 1),
      ("content_hash", .str "cccccccccccccccccccccccccccccccccccccccccccccccccccccccccccccccc"),
      ("originality_reference_height", .int 7),
      ("originality_reference_block_hash", .str sampleBlockHash),
      ("final_prevote_decision", .str "PASS"), ("reason_codes", .list []),
      ("canonical_evidence_digest", .str sampleDigest)]])]

/-- A document of another branch. -/
def otherDocument : Dict :=
  [("chain", .list [.dict [("index", .int 7), ("hash", .str otherBlockHash)]])]

theorem immutable_iff (h : Host) (documents : List Dict)
    (hone : OneDigest (allHeld (commits h [] documents))) :
    Immutable (commits h [] documents) ↔ ∀ c ∈ commits h [] documents, Meets c := by
  have hwf : Wellformed [] := ⟨List.nodup_nil, by simp, by simp⟩
  have hsourced : Sourced [] [] := by simp [Sourced]
  have hunmarked : Unmarked [] := by simp [Unmarked]
  have hrun := run_commits h documents hwf hsourced (by simpa using hone)
  constructor
  · intro himmutable
    exact (lawful_iff_meets hrun hunmarked).mp himmutable.lawful
  · exact immutable_of_meets hrun hunmarked

/-- A reorganization takes the evidence away. -/
theorem immutable_sample : Immutable (commits sampleHost [] [sampleDocument, otherDocument]) := by
  have hrun : OneDigest (allHeld (commits sampleHost [] [sampleDocument, otherDocument])) ∧
      ∀ c ∈ commits sampleHost [] [sampleDocument, otherDocument], Meets c := by
    decide +kernel
  exact (immutable_iff sampleHost [sampleDocument, otherDocument] hrun.1).mpr hrun.2

/-- When it is undone, the evidence becomes current again and stays marked. -/
theorem marked_of_returned :
    OneDigest (allHeld (commits sampleHost [] [sampleDocument, otherDocument, sampleDocument])) ∧
      ¬Immutable (commits sampleHost [] [sampleDocument, otherDocument, sampleDocument]) := by
  have hrun : OneDigest (allHeld (commits sampleHost []
        [sampleDocument, otherDocument, sampleDocument])) ∧
      ∃ c ∈ commits sampleHost [] [sampleDocument, otherDocument, sampleDocument],
        ∃ r ∈ c.after, r.isCurrent = true ∧ r.invalidatedByReorg = true := by
    decide +kernel
  refine ⟨hrun.1, fun himmutable => ?_⟩
  obtain ⟨-, c, hc, r, hr, hcurrent, hmark⟩ := hrun
  rw [(himmutable.lawful c hc).unmarked r hr hcurrent] at hmark
  cases hmark

end Originality

end ZoidbergChain
