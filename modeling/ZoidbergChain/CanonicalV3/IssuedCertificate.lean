import ZoidbergChain.CanonicalV3.Issuance

/-!
# Issued certificates

The certificate that `issue` of canonical_v3/issuance.py assembles.

- `Issue`: parts that belong together, with votes that approve both dimensions.
- `validateCertificate_issued`: the assembled certificate passes `validate_certificate`.
-/

namespace ZoidbergChain

open Python

namespace CanonicalV3

variable {crypto : Crypto} {ctx : Context}

/-! ## Tallies -/

/-- The votes approve the dimension with a quorum. -/
structure Approved (votes : List Value) (dimension : String) : Prop where
  quorum : 5 ≤ (selectedVotes votes dimension).length
  established : 1 ≤ (selectedVotes votes dimension).countP fun v =>
    v.textAt "reviewer_status" = "ESTABLISHED_REVIEWER"
  decisive : 0 < choiceCount (selectedVotes votes dimension) (positiveChoice dimension) +
    choiceCount (selectedVotes votes dimension) (negativeChoice dimension)
  approval : (choiceCount (selectedVotes votes dimension) (positiveChoice dimension) +
      choiceCount (selectedVotes votes dimension) (negativeChoice dimension)) * 7000 ≤
    choiceCount (selectedVotes votes dimension) (positiveChoice dimension) * 10000

theorem mem_selectedVotes {votes : List Value} {dimension : String} {v : Value} :
    v ∈ selectedVotes votes dimension ↔ v ∈ votes ∧ v.textAt "dimension" = dimension := by
  rw [selectedVotes, (List.perm_insertionSort _ _).mem_iff, List.mem_filter, decide_eq_true_eq]

theorem length_selectedVotes_le (votes : List Value) (dimension : String) :
    (selectedVotes votes dimension).length ≤ votes.length := by
  rw [selectedVotes, (List.perm_insertionSort _ _).length_eq]
  exact List.length_filter_le _ _

theorem writes_voteProjection {selected : List Value} (hlength : selected.length ≤ 32)
    (hvotes : ∀ v ∈ selected, ∃ b : Ballot crypto ctx, v = b.record) :
    Writes 2 8001 (voteProjection selected) := by
  refine (writes_list 32 (n := 249) (by decide) (by rwa [List.length_map]) (by decide) ?_).mono
    (le_refl _) (by decide)
  intro v hv
  obtain ⟨w, hw, rfl⟩ := List.mem_map.mp hv
  obtain ⟨b, rfl⟩ := hvotes w hw
  have hfields : FieldsWrite 0 [("wallet", .str b.voter), ("choice", .str b.choice),
      ("identity", .str b.identity), ("status", .str b.status)]
      [("wallet", 44), ("choice", 16), ("identity", 66), ("status", 23)] := by
    simp only [FieldsWrite, List.forall₂_cons, List.forall₂_nil_left_iff, true_and, and_true]
    exact ⟨writes_wallet b.voter_valid,
      writes_member b.choice_mem (n := 14) (by decide +kernel) (by decide),
      writes_sha256 crypto _,
      writes_member b.status_valid (n := 21) (by decide +kernel) (by decide)⟩
  exact (writes_dict hfields (by decide +kernel) (by decide)).mono (le_refl _)
    (by decide +kernel)

/-- A vote has one choice. -/
theorem choiceCounts_le (selected : List Value) {dimension : String}
    (hdimension : dimension ∈ dimensions) :
    choiceCount selected (positiveChoice dimension) +
      choiceCount selected (negativeChoice dimension) ≤ selected.length := by
  have hne : positiveChoice dimension ≠ negativeChoice dimension :=
    (by decide : ∀ d ∈ dimensions, positiveChoice d ≠ negativeChoice d) _ hdimension
  unfold choiceCount
  induction selected with
  | nil => exact le_refl 0
  | cons v selected ih =>
    have hone : ¬ (v.textAt "vote_type" = positiveChoice dimension ∧
        v.textAt "vote_type" = negativeChoice dimension) := fun h => hne (h.1.symm.trans h.2)
    rw [List.countP_cons, List.countP_cons, List.length_cons]
    split <;> split <;> simp_all <;> omega

/-- The tally of issued votes can be derived and written; an approved dimension has the positive
outcome. -/
theorem deriveTally_issued {votes : List Value} {dimension : String}
    (hlength : votes.length ≤ 32) (hdimension : dimension ∈ dimensions)
    (hvotes : ∀ v ∈ votes, ∃ b : Ballot crypto ctx, v = b.record)
    (happroved : Approved votes dimension) :
    ∃ tally, deriveTally crypto ctx votes dimension = .ok tally ∧ Writes 1 700 tally ∧
      (∃ d, closed tally tallyFields [] = .ok d) ∧
      tally.field "outcome" = .str (positiveChoice dimension) ∧
      (∃ p d : Nat, tally.field "positive_votes" = .int p ∧
        tally.field "approval_denominator" = .int d ∧ p ≤ d ∧ 0 < d ∧
        d ≤ (selectedVotes votes dimension).length) ∧
      ∃ raw, tally.field "vote_set_digest" = .str (crypto.sha256Hex raw) := by
  have hselected := (length_selectedVotes_le votes dimension).trans hlength
  have hprojection := @writes_voteProjection crypto ctx _ hselected
    fun v hv => hvotes v (mem_selectedVotes.mp hv).1
  simp only [deriveTally, digest, hprojection.canonical, ok_bind, Except.ok.injEq,
    exists_eq_left']
  have hpositive : choiceCount (selectedVotes votes dimension) (positiveChoice dimension) ≤ 32 :=
    List.countP_le_length.trans hselected
  have hnegative : choiceCount (selectedVotes votes dimension) (negativeChoice dimension) ≤ 32 :=
    List.countP_le_length.trans hselected
  have hestablished := (List.countP_le_length (l := selectedVotes votes dimension)
    (p := fun v => decide (v.textAt "reviewer_status" = "ESTABLISHED_REVIEWER"))).trans hselected
  obtain ⟨hquorum, hone, hdecisive, happroval⟩ := happroved
  have hresolved : (decide (5 ≤ (selectedVotes votes dimension).length ∧
      1 ≤ (selectedVotes votes dimension).countP fun v =>
        decide (v.textAt "reviewer_status" = "ESTABLISHED_REVIEWER")) &&
      decide (0 < choiceCount (selectedVotes votes dimension) (positiveChoice dimension) +
        choiceCount (selectedVotes votes dimension) (negativeChoice dimension))) = true := by
    simp only [Bool.and_eq_true, decide_eq_true_eq]
    exact ⟨⟨hquorum, hone⟩, hdecisive⟩
  simp only [hresolved, if_true, if_pos happroval]
  have hcount : ∀ n : Nat, n ≤ 64 → Writes 0 2 (.int n) := by
    intro n hn
    refine writes_small ⟨Int.natCast_nonneg n, ?_⟩ (by decide) ?_
    · show (n : Int) < 100
      omega
    · exact (by omega : (n : Int) ≤ 64).trans (by decide)
  have houtcome : positiveChoice dimension ∈ ["original", "admissible"] :=
    (by decide : ∀ d ∈ dimensions, positiveChoice d ∈ ["original", "admissible"]) _ hdimension
  refine ⟨?_, ⟨_, closed_of_keys (l := tallyFields) rfl (by decide +kernel)⟩, rfl,
    ⟨choiceCount (selectedVotes votes dimension) (positiveChoice dimension), _, rfl, rfl,
      Nat.le_add_right _ _, hdecisive, choiceCounts_le _ hdimension⟩, _, rfl⟩
  refine (writes_dict (i := 0) (l := [("dimension", 15), ("policy_version", 1),
    ("policy_digest", 66), ("eligible_valid_votes", 2), ("established_reviewer_votes", 2),
    ("positive_votes", 2), ("negative_votes", 2), ("unsure_votes", 2),
    ("approval_denominator", 2), ("approval_threshold_bps", 4), ("quorum_reached", 5),
    ("resolved", 5), ("outcome", 12), ("vote_set_digest", 66)]) ?_ (by decide +kernel)
    (by decide)).mono (le_refl _) (by decide +kernel)
  simp only [FieldsWrite, List.forall₂_cons, List.forall₂_nil_left_iff, true_and, and_true]
  exact ⟨writes_member hdimension (n := 13) (by decide) (by decide),
    writes_small (by decide) (by decide) (by decide), writes_contextHash ctx (by simp),
    hcount _ (by omega), hcount _ (by omega), hcount _ (by omega), hcount _ (by omega),
    hcount _ (by omega), hcount _ (by omega), writes_small (by decide) (by decide) (by decide),
    writes_bool _, writes_bool _, writes_member houtcome (n := 10) (by decide) (by decide),
    writes_sha256 crypto _⟩

/-! ## Certificates -/

/-- `body` of `issue`, with its tallies and without its digest. -/
def certificateBody (ctx : Context) (submission contentHash creator : String)
    (technical attestation originality admissibility : Value) (votes : List Value) : Dict :=
  [("certificate_version", .int 2), ("network_id", .str ctx.networkId),
    ("submission_id", .str submission), ("content_hash", .str contentHash),
    ("creator_wallet", .str creator), ("policy_id", .str ctx.mediaPolicyId),
    ("policy_version", .int 2), ("policy_digest", .str ctx.mediaPolicyDigest),
    ("technical_evidence_version", .int 1), ("technical_evidence", technical),
    ("attestation_version", .int 1), ("attestation", attestation),
    ("review_policy_version", .int 2), ("review_policy_digest", .str ctx.reviewPolicyDigest),
    ("votes", .list votes), ("originality", originality), ("admissibility", admissibility)]

/-- Parts that belong together, with votes in order that approve both dimensions. -/
structure Issue (crypto : Crypto) (ctx : Context) where
  technical : Technical
  attestation : Attestation crypto ctx
  ballots : List (Ballot crypto ctx)
  contentHash_bound : attestation.contentHash = technical.contentHash
  technicalDigest_bound : attestation.technicalDigest = technical.evidenceDigest crypto ctx
  ballots_bound : ∀ b ∈ ballots, b.submission = attestation.submission ∧
    b.contentHash = technical.contentHash ∧ b.voter ≠ attestation.creator
  count : ballots.length ≤ 32
  ordered : (ballots.map fun b => voteOrder b.record) =
    (ballots.map fun b => voteOrder b.record).insertionSort (· ≤ ·)
  distinct : (ballots.map fun b => (b.dimension, b.voter)).Nodup
  dimension_count : ∀ dimension ∈ dimensions,
    (ballots.countP fun b => b.dimension = dimension) ≤ 16
  approved : ∀ dimension ∈ dimensions, Approved (ballots.map Ballot.record) dimension

namespace Issue

/-- The closed votes. -/
def votes (i : Issue crypto ctx) : List Value := i.ballots.map Ballot.record

/-- The derived tally of a dimension. -/
def tally (i : Issue crypto ctx) (dimension : String) : Value :=
  match deriveTally crypto ctx i.votes dimension with
  | .ok v => v
  | .error _ => .null

/-- The certificate without its digest. -/
def body (i : Issue crypto ctx) : Dict :=
  certificateBody ctx i.attestation.submission i.technical.contentHash i.attestation.creator
    (i.technical.record crypto ctx) i.attestation.record (i.tally "originality")
    (i.tally "admissibility") i.votes

/-- `certificate_digest`. -/
def certificateDigest (i : Issue crypto ctx) : String :=
  crypto.sha256Hex (encodeUtf8 (canonicalText (.dict i.body)))

/-- The certificate. -/
def certificate (i : Issue crypto ctx) : Value :=
  .dict (i.body ++ [("certificate_digest", .str i.certificateDigest)])

theorem mem_votes (i : Issue crypto ctx) :
    ∀ v ∈ i.votes, ∃ b : Ballot crypto ctx, v = b.record := by
  intro v hv
  obtain ⟨b, -, rfl⟩ := List.mem_map.mp hv
  exact ⟨b, rfl⟩

theorem tally_spec (i : Issue crypto ctx) {dimension : String} (h : dimension ∈ dimensions) :
    deriveTally crypto ctx i.votes dimension = .ok (i.tally dimension) ∧
      Writes 1 700 (i.tally dimension) ∧
      (∃ d, closed (i.tally dimension) tallyFields [] = .ok d) ∧
      (i.tally dimension).field "outcome" = .str (positiveChoice dimension) ∧
      (∃ p d : Nat, (i.tally dimension).field "positive_votes" = .int p ∧
        (i.tally dimension).field "approval_denominator" = .int d ∧ p ≤ d ∧ 0 < d ∧ d ≤ 16) ∧
      ∃ raw, (i.tally dimension).field "vote_set_digest" = .str (crypto.sha256Hex raw) := by
  have hcount : i.votes.length ≤ 32 := by
    rw [votes, List.length_map]
    exact i.count
  obtain ⟨t, ht, hwrites, hclosed, houtcome, ⟨p, d, hp, hd, hle, hpos, hlength⟩, hdigest⟩ :=
    deriveTally_issued hcount h i.mem_votes (i.approved dimension h)
  have htally : i.tally dimension = t := by
    rw [tally, ht]
  have hselected : (selectedVotes i.votes dimension).length ≤ 16 := by
    rw [selectedVotes, (List.perm_insertionSort _ _).length_eq, ← List.countP_eq_length_filter,
      votes, List.countP_map]
    exact i.dimension_count dimension h
  rw [htally]
  exact ⟨ht, hwrites, hclosed, houtcome, ⟨p, d, hp, hd, hle, hpos, hlength.trans hselected⟩,
    hdigest⟩

theorem fieldsWrite (i : Issue crypto ctx) : FieldsWrite 2 i.body
    [("certificate_version", 1), ("network_id", 66), ("submission_id", 34),
      ("content_hash", 66), ("creator_wallet", 44), ("policy_id", 84), ("policy_version", 1),
      ("policy_digest", 66), ("technical_evidence_version", 1), ("technical_evidence", 1100),
      ("attestation_version", 1), ("attestation", 7000), ("review_policy_version", 1),
      ("review_policy_digest", 66), ("votes", 105633), ("originality", 700),
      ("admissibility", 700)] := by
  have hflat : ∀ {n : Nat} {w : Value}, Writes 0 n w → Writes 2 n w := fun hw =>
    hw.mono (by decide) (le_refl _)
  have hsmall : ∀ n : Int, 0 ≤ n ∧ n < 10 ^ 1 → Writes 0 1 (.int n) := fun n hn =>
    writes_small hn (by decide) (hn.2.le.trans (by decide))
  have hvotes : Writes 2 105633 (.list i.votes) := by
    refine (writes_list 32 (n := 3300) (by decide) ?_ (by decide) ?_).mono (le_refl _)
      (by decide)
    · rw [votes, List.length_map]
      exact i.count
    · intro v hv
      obtain ⟨b, -, rfl⟩ := List.mem_map.mp hv
      exact b.writes_record
  have htally : ∀ dimension ∈ dimensions, Writes 2 700 (i.tally dimension) := fun _ h =>
    (i.tally_spec h).2.1.mono (by decide) (le_refl _)
  simp only [body, certificateBody, FieldsWrite, List.forall₂_cons, List.forall₂_nil_left_iff,
    true_and, and_true]
  exact ⟨hflat (hsmall 2 (by decide)), hflat (writes_networkId ctx),
    hflat (writes_submissionId i.attestation.submission_valid),
    hflat (writes_h64 i.technical.contentHash_valid),
    hflat (writes_wallet i.attestation.creator_valid), hflat (writes_mediaPolicyId ctx),
    hflat (hsmall 2 (by decide)), hflat (writes_contextHash ctx (by simp)),
    hflat (hsmall 1 (by decide)), i.technical.writes_record crypto ctx,
    hflat (hsmall 1 (by decide)), i.attestation.writes_record, hflat (hsmall 2 (by decide)),
    hflat (writes_contextHash ctx (by simp)), hvotes, htally _ (by decide), htally _ (by decide)⟩

theorem writes_body (i : Issue crypto ctx) : Writes 3 116000 (.dict i.body) :=
  (writes_dict i.fieldsWrite (by decide +kernel) (by decide)).mono (le_refl _)
    (by decide +kernel)

theorem writes_certificate (i : Issue crypto ctx) : Writes 3 117000 i.certificate := by
  have hdigest : FieldsWrite 2 [("certificate_digest", .str i.certificateDigest)]
      [("certificate_digest", 66)] :=
    .cons ⟨rfl, (writes_sha256 crypto _).mono (by decide) (le_refl _)⟩ .nil
  exact (writes_dict (List.rel_append i.fieldsWrite hdigest) (by decide +kernel)
    (by decide)).mono (le_refl _) (by decide +kernel)

end Issue

/-- Issued votes pass `validate_votes`. -/
theorem validateVotes_issued (i : Issue crypto ctx) :
    validateVotes crypto ctx (.list i.votes) = .ok () := by
  have hcount : i.votes.length ≤ 32 := by
    rw [Issue.votes, List.length_map]
    exact i.count
  simp only [validateVotes, bind_eq_ok, forM_eq_ok, require_eq_ok]
  refine ⟨i.votes, listUpTo_eq_ok.mpr ⟨rfl, hcount⟩, (), ?_, (), ?_, (), ?_, ?_⟩
  · intro v hv
    obtain ⟨b, -, rfl⟩ := List.mem_map.mp hv
    exact validateVote_issued b
  · rw [Issue.votes, List.map_map]
    exact i.ordered
  · rw [Issue.votes, List.map_map]
    exact i.distinct
  · intro dimension hdimension
    rw [Issue.votes, List.countP_map]
    exact i.dimension_count dimension hdimension

/-- A certificate of parts that belong together passes `validate_certificate`. -/
theorem validateCertificate_issued (i : Issue crypto ctx) :
    validateCertificate crypto ctx i.certificate = .ok () := by
  have hrecord := i.writes_certificate
  have hclosed : closed i.certificate certificateFields [] = .ok _ :=
    closed_of_keys (l := certificateFields) rfl (by decide +kernel)
  have hfixed : fieldsEqual i.certificate ([("certificate_version", .int 2),
      ("network_id", .str ctx.networkId), ("technical_evidence_version", .int 1),
      ("attestation_version", .int 1), ("review_policy_version", .int 2),
      ("review_policy_digest", .str ctx.reviewPolicyDigest)] ++ policyFields ctx) = .ok () :=
    fieldsEqual_of_subset hrecord (by decide)
      (by simp [Issue.body, certificateBody, policyFields])
  have htechnical : fieldsEqual (i.technical.record crypto ctx)
      [("raw_media_sha256", .str i.technical.contentHash)] = .ok () :=
    fieldsEqual_of_subset (i.technical.writes_record crypto ctx) (by decide)
      (by simp [Technical.fields])
  have hattestation : fieldsEqual (.dict (i.attestation.fields ctx))
      [("submission_id", .str i.attestation.submission),
        ("wallet_address", .str i.attestation.creator),
        ("raw_media_sha256", .str i.technical.contentHash),
        ("technical_evidence_digest", .str (i.technical.evidenceDigest crypto ctx))] = .ok () := by
    refine fieldsEqual_of_subset i.attestation.writes_payload (by decide) ?_
    rw [← i.contentHash_bound, ← i.technicalDigest_bound]
    simp [AttestationText.fields]
  have hbound : ∀ v ∈ i.votes, fieldsEqual v
      [("submission_id", .str i.attestation.submission),
        ("content_hash", .str i.technical.contentHash)] = .ok () ∧
      v.textAt "voter_wallet_address" ≠ i.attestation.creator := by
    intro v hv
    obtain ⟨b, hb, rfl⟩ := List.mem_map.mp hv
    obtain ⟨hsubmission, hcontent, hvoter⟩ := i.ballots_bound b hb
    refine ⟨?_, hvoter⟩
    rw [← hsubmission, ← hcontent, fieldsEqual_eq_ok]
    simp only [List.forall_mem_cons]
    exact ⟨(writes_submissionId b.submission_valid).fixed, (writes_h64 b.contentHash_valid).fixed,
      List.forall_mem_nil _⟩
  have hdigest : withoutDigest crypto i.certificate "certificate_digest" = .ok () := by
    refine withoutDigest_append i.writes_body ?_
    show "certificate_digest" ∉ certificateFields.take 17
    decide +kernel
  have htallies : ∀ dimension ∈ dimensions, i.certificate.field dimension = i.tally dimension := by
    simp only [dimensions, List.forall_mem_cons]
    exact ⟨rfl, rfl, List.forall_mem_nil _⟩
  simp only [validateCertificate, bind_eq_ok, forM_eq_ok, require_eq_ok]
  refine ⟨_, hclosed, (), hrecord.bounded (by decide), (), hfixed, _,
    i.attestation.submission_valid, _, i.technical.contentHash_valid, _,
    i.attestation.creator_valid, (), validateTechnical_issued i.technical, (),
    validateAttestation_issued i.attestation, (), htechnical, (), hattestation, (),
    validateVotes_issued i, (), ?_, (), ?_, hdigest⟩
  · intro v hv
    exact ⟨(), (hbound v hv).1, (hbound v hv).2⟩
  · intro dimension hdimension
    obtain ⟨hderive, hwrites, ⟨d, hkeys⟩, houtcome, -⟩ := i.tally_spec hdimension
    rw [htallies dimension hdimension]
    refine ⟨(), ?_, houtcome⟩
    rw [validateDerivedTally, hkeys, ok_bind, hwrites.bounded (by decide), ok_bind]
    exact bind_eq_ok.mpr ⟨_, hderive, hwrites.fixed⟩

end CanonicalV3

end ZoidbergChain
