import ZoidbergChain.MintQueue.Model

/-!
# The first item of the mint queue

- `Ready` is what a mintable item has: it is queued, it is not blocked, it has a certificate.
  `evaluate_ready` and `evaluate_not_ready` say what a judgement is and does in either case.
- `Demotes` is how the judgements of a whole queue change its submissions.
- `firstMintable_eq_head?`: the fast path returns the first record of the list.
-/

namespace ZoidbergChain.MintQueue

open Python

variable {o : Oracles} {state state' : State}

/-! ## The judgement of one item -/

/-- What the checks of a certified submission keep of its record. -/
structure Judged (r r' : MintRecord) : Prop where
  submissionId : r'.submissionId = r.submissionId
  submissionStatus : r'.submissionStatus = r.submissionStatus
  mintBlocked : r'.mintBlocked = r.mintBlocked
  valid : r'.mintable = true → r'.certificateStatus = .valid
  reason : r'.mintBlockReason ≠ .str "certificate_missing"

theorem judged_held {r : MintRecord} {reason : String} {fields : List String}
    (hr : r.mintable = false) (hreason : reason ≠ "certificate_missing") :
    Judged r (r.held reason fields) where
  submissionId := rfl
  submissionStatus := rfl
  mintBlocked := rfl
  valid h := by simp [MintRecord.held, hr] at h
  reason h := hreason (Value.str.inj h)

theorem judged_refused {r : MintRecord} {message : String} (hr : r.mintable = false) :
    Judged r (r.refused o message) where
  submissionId := rfl
  submissionStatus := rfl
  mintBlocked := rfl
  valid h := by simp [MintRecord.refused, hr] at h
  reason h := by
    have h := Value.str.inj h
    split at h <;> exact absurd h (by decide)

theorem judged_textRecord {s : Submission} {content : ContentObject} {r r' : MintRecord}
    (h : textRecord o s content r = .ok r') : Judged r r' := by
  unfold textRecord at h
  split at h
  · obtain rfl := Except.ok.inj h
    exact ⟨rfl, rfl, rfl, fun _ => rfl, by simp [MintRecord.ready]⟩
  · obtain ⟨extracted, -, h⟩ := bind_eq_ok.mp h
    split at h
    · obtain rfl := Except.ok.inj h
      exact ⟨rfl, rfl, rfl, by simp, by simp⟩
    · obtain rfl := Except.ok.inj h
      exact ⟨rfl, rfl, rfl, fun _ => rfl, by simp [MintRecord.ready]⟩

theorem payloadReason_ne (error : String) : payloadReason error ≠ "certificate_missing" := by
  unfold payloadReason
  split
  · decide
  · split <;> decide

theorem judged_unverified {s : Submission} {r : MintRecord} {failure : Value}
    (hr : r.mintable = false) (hvalid : r.certificateStatus = .valid) :
    Judged r (r.unverified o s failure) := by
  unfold MintRecord.unverified
  dsimp only
  split
  · -- a payload that is too old to be verified
    exact ⟨rfl, rfl, rfl, fun _ => hvalid, by simp⟩
  · obtain ⟨hid, hstatus, hblocked, hmint, hreason⟩ :=
      @judged_held _ _ ["content_payload"] hr (payloadReason_ne (o.lower
        ((failure.orElse (.str "")).text o.toRuntime)))
    exact ⟨hid, hstatus, hblocked, hmint, hreason⟩

theorem judged_payloadRecord {s : Submission} {content : ContentObject} {r r' : MintRecord}
    (hr : r.mintable = false) (hvalid : r.certificateStatus = .valid)
    (h : payloadRecord o s content r = .ok r') : Judged r r' := by
  unfold payloadRecord at h
  split at h
  · obtain rfl := Except.ok.inj h
    exact judged_held hr (by decide)
  split at h
  · obtain rfl := Except.ok.inj h
    exact judged_held hr (by decide)
  obtain ⟨verification, -, h⟩ := bind_eq_ok.mp h
  split at h
  · exact judged_textRecord h
  · obtain rfl := Except.ok.inj h
    exact judged_unverified hr hvalid

theorem judged_certifiedRecord {s : Submission} {content : Option ContentObject}
    {certificate : Certificate} {r r' : MintRecord} (hr : r.mintable = false)
    (hvalid : r.certificateStatus = .valid)
    (h : certifiedRecord o s content certificate r = .ok r') : Judged r r' := by
  unfold certifiedRecord at h
  cases content with
  | none =>
    obtain rfl := Except.ok.inj h
    exact judged_held hr (by decide)
  | some content =>
    dsimp only at h
    split at h
    · split at h
      · obtain rfl := Except.ok.inj h
        exact judged_refused hr
      · cases h
    · obtain ⟨hid, hstatus, hblocked, hmint, hreason⟩ :=
        judged_payloadRecord (r := r.withContent content) hr hvalid h
      exact ⟨hid, hstatus, hblocked, hmint, hreason⟩

/-- A submission that is queued, not blocked and certified. -/
structure Ready (state : State) (submissionId : Value) (s : Submission) (c : Certificate) :
    Prop where
  found : state.submission submissionId = some s
  queued : s.status = .queued
  free : s.mintBlocked = false
  certified : state.certificate submissionId = some c

/-- The record of a submission that is ready. -/
structure ReadyRecord (s : Submission) (r : MintRecord) : Prop where
  submissionId : r.submissionId = .str s.submissionId
  submissionStatus : r.submissionStatus = some .queued
  mintBlocked : r.mintBlocked = false
  valid : r.mintable = true → r.certificateStatus = .valid
  reason : r.mintBlockReason ≠ .str "certificate_missing"

theorem readyRecord_of_record {s : Submission} {c : Certificate} {content : Option ContentObject}
    {r : MintRecord} (hstatus : s.status = .queued) (hfree : s.mintBlocked = false)
    (h : record o s content (some c) = .ok r) : ReadyRecord s r := by
  unfold record at h
  obtain ⟨score, -, h⟩ := bind_eq_ok.mp h
  obtain ⟨certificateId, -, h⟩ := bind_eq_ok.mp h
  simp only [statusRecord, hfree, hstatus, Bool.false_eq_true, reduceCtorEq, if_false, ne_eq,
    not_true_eq_false] at h
  have hjudged := judged_certifiedRecord rfl rfl h
  exact ⟨hjudged.submissionId, hjudged.submissionStatus.trans (congrArg some hstatus),
    hjudged.mintBlocked.trans hfree, hjudged.valid, hjudged.reason⟩

/-- The judgement of a submission that is ready changes nothing. -/
theorem evaluate_ready {submissionId : Value} {s : Submission} {c : Certificate}
    {r : MintRecord} (hready : Ready state submissionId s c) :
    evaluate o state submissionId = .ok (r, state') ↔
      record o s (state.content s) (some c) = .ok r ∧ state' = state := by
  unfold evaluate
  simp only [hready.found, hready.certified, bind_eq_ok]
  constructor
  · rintro ⟨r', hr', h⟩
    have hreason := (readyRecord_of_record hready.queued hready.free hr').reason
    rw [if_neg fun hc => hreason hc.2] at h
    obtain ⟨rfl, rfl⟩ := Prod.mk.inj (Except.ok.inj h)
    exact ⟨hr', rfl⟩
  · rintro ⟨hr, rfl⟩
    have hreason := (readyRecord_of_record hready.queued hready.free hr).reason
    exact ⟨r, hr, by rw [if_neg fun hc => hreason hc.2]⟩

theorem record_not_mintable {s : Submission} {certificate : Option Certificate}
    {content : Option ContentObject} {r : MintRecord}
    (h : record o s content certificate = .ok r)
    (hnot : ¬(s.status = .queued ∧ s.mintBlocked = false ∧ ∃ c, certificate = some c)) :
    r.mintable = false := by
  unfold record at h
  obtain ⟨score, -, h⟩ := bind_eq_ok.mp h
  obtain ⟨certificateId, -, h⟩ := bind_eq_ok.mp h
  unfold statusRecord at h
  by_cases hblocked : s.mintBlocked = true
  · rw [if_pos hblocked] at h
    obtain rfl := Except.ok.inj h
    rfl
  rw [if_neg hblocked] at h
  by_cases hstatus : s.status = .queued
  · simp only [hstatus, reduceCtorEq, if_false, ne_eq, not_true_eq_false] at h
    cases certificate with
    | none =>
      obtain rfl := Except.ok.inj h
      rfl
    | some c => exact absurd ⟨hstatus, Bool.eq_false_iff.mpr hblocked, c, rfl⟩ hnot
  · rw [if_pos hstatus] at h
    split at h
    · obtain rfl := Except.ok.inj h
      rfl
    · obtain rfl := Except.ok.inj h
      rfl

/-- What is judged mintable was ready. -/
theorem ready_of_mintable {submissionId : Value} {r : MintRecord}
    (h : evaluate o state submissionId = .ok (r, state')) (hr : r.mintable = true) :
    ∃ s c, Ready state submissionId s c := by
  unfold evaluate at h
  cases hs : state.submission submissionId with
  | none =>
    rw [hs] at h
    obtain ⟨rfl, -⟩ := Prod.mk.inj (Except.ok.inj h)
    cases hr
  | some s =>
    rw [hs] at h
    obtain ⟨r', hr', h⟩ := bind_eq_ok.mp h
    have hmint : r'.mintable = true := by
      split at h <;> (obtain ⟨rfl, -⟩ := Prod.mk.inj (Except.ok.inj h); exact hr)
    by_contra hnot
    have hfalse := record_not_mintable hr' fun ⟨hstatus, hfree, c, hc⟩ =>
      hnot ⟨s, c, hs, hstatus, hfree, hc⟩
    rw [hfalse] at hmint
    cases hmint

/-! ## The judgements of a whole queue -/

/-- How the judgements of some items change the state: submissions that are not ready become
`APPROVED`. -/
structure Demotes (state state' : State) : Prop where
  contentObjects : state'.contentObjects = state.contentObjects
  originalityCertificates : state'.originalityCertificates = state.originalityCertificates
  submission : ∀ id, state'.submission id = state.submission id ∨
    ∃ s, state.submission id = some s ∧ (∀ c, ¬Ready state id s c) ∧
      state'.submission id = some { s with status := .approved }

theorem Demotes.refl (state : State) : Demotes state state := ⟨rfl, rfl, fun _ => .inl rfl⟩

/-- The certificates stay where they are. -/
theorem Demotes.certificate (h : Demotes state state') (id : Value) :
    state'.certificate id = state.certificate id := by
  have horiginality : state'.originalityCertificate id = state.originalityCertificate id := by
    unfold State.originalityCertificate
    rw [h.originalityCertificates]
  unfold State.certificate
  obtain hs | ⟨s, hs, -, hs'⟩ := h.submission id
  · rw [hs, horiginality]
  · simp only [hs, hs', horiginality]

theorem Demotes.content (h : Demotes state state') (s : Submission) :
    state'.content s = state.content s := by
  have hhash : state'.contentByHash = state.contentByHash := by
    funext key
    unfold State.contentByHash
    rw [h.contentObjects]
  have hid : state'.contentById = state.contentById := by
    funext key
    unfold State.contentById
    rw [h.contentObjects]
  unfold State.content
  rw [hhash, hid]

/-- The items that are ready stay so, and no others become so. -/
theorem Demotes.ready_iff (h : Demotes state state') {id : Value} {s : Submission}
    {c : Certificate} : Ready state' id s c ↔ Ready state id s c := by
  constructor
  · rintro ⟨hfound, hqueued, hfree, hcert⟩
    rw [h.certificate] at hcert
    obtain hs | ⟨t, -, -, ht⟩ := h.submission id
    · exact ⟨hs ▸ hfound, hqueued, hfree, hcert⟩
    · obtain rfl := Option.some.inj (hfound.symm.trans ht)
      cases hqueued
  · rintro ⟨hfound, hqueued, hfree, hcert⟩
    obtain hs | ⟨t, ht, hnot, -⟩ := h.submission id
    · exact ⟨hs.trans hfound, hqueued, hfree, (h.certificate id).trans hcert⟩
    · obtain rfl := Option.some.inj (hfound.symm.trans ht)
      exact absurd ⟨hfound, hqueued, hfree, hcert⟩ (hnot c)

theorem Demotes.trans {state'' : State} (h : Demotes state state') (h' : Demotes state' state'') :
    Demotes state state'' where
  contentObjects := h'.contentObjects.trans h.contentObjects
  originalityCertificates := h'.originalityCertificates.trans h.originalityCertificates
  submission id := by
    obtain hs | ⟨s, hs, hnot, hs'⟩ := h.submission id
    · obtain ht | ⟨t, ht, hnot, ht'⟩ := h'.submission id
      · exact .inl (ht.trans hs)
      · exact .inr ⟨t, hs.symm.trans ht, fun c hc => hnot c (h.ready_iff.mpr hc), ht'⟩
    · obtain ht | ⟨t, ht, -, ht'⟩ := h'.submission id
      · exact .inr ⟨s, hs, hnot, ht.trans hs'⟩
      · -- it is approved already
        obtain rfl := Option.some.inj (hs'.symm.trans ht)
        exact .inr ⟨s, hs, hnot, ht'⟩

theorem find?_requeue {key key' : String} {submissions : List Submission} {s : Submission}
    (hs : submissions.find? (fun s => s.submissionId = key) = some s) :
    (requeue key submissions).find? (fun s => s.submissionId = key') =
      if key' = key then some { s with status := .approved }
      else submissions.find? fun s => s.submissionId = key' := by
  induction submissions with
  | nil => cases hs
  | cons t rest ih =>
    by_cases ht : t.submissionId = key
    · obtain rfl : t = s := by simpa [ht] using hs
      subst ht
      by_cases hkey : key' = t.submissionId
      · subst hkey
        simp [requeue]
      · simp [requeue, hkey, Ne.symm hkey]
    · have hs : rest.find? (fun s => s.submissionId = key) = some s := by simpa [ht] using hs
      by_cases hkey : t.submissionId = key'
      · subst hkey
        simp [requeue, ht]
      · simp only [requeue, if_neg ht, List.find?_cons, hkey, decide_false]
        exact ih hs

/-- Ids that are looked for under one key find the same. -/
theorem submission_congr {a b : Value} (h : lookupKey a = lookupKey b) :
    state.submission a = state.submission b := by
  unfold State.submission
  rw [h]

theorem certificate_congr {a b : Value} (h : lookupKey a = lookupKey b) :
    state.certificate a = state.certificate b := by
  unfold State.certificate State.originalityCertificate
  rw [submission_congr h, h]

/-- One judgement changes the state in this way. -/
theorem demotes_evaluate {submissionId : Value} {r : MintRecord}
    (h : evaluate o state submissionId = .ok (r, state')) : Demotes state state' := by
  by_cases hready : ∃ s c, Ready state submissionId s c
  · obtain ⟨s, c, hready⟩ := hready
    obtain ⟨-, rfl⟩ := (evaluate_ready hready).mp h
    exact Demotes.refl _
  unfold evaluate at h
  cases hs : state.submission submissionId with
  | none =>
    rw [hs] at h
    obtain ⟨-, rfl⟩ := Prod.mk.inj (Except.ok.inj h)
    exact Demotes.refl _
  | some s =>
    rw [hs] at h
    obtain ⟨r', -, h⟩ := bind_eq_ok.mp h
    split at h
    · obtain ⟨-, rfl⟩ := Prod.mk.inj (Except.ok.inj h)
      -- every id that finds this submission is the stripped one
      obtain ⟨key, hkey, hfind⟩ := Option.bind_eq_some_iff.mp hs
      obtain rfl : s.submissionId = key := by simpa using List.find?_some hfind
      refine ⟨rfl, rfl, fun id => ?_⟩
      cases hid : lookupKey id with
      | none => exact .inl (by simp [State.submission, hid])
      | some key' =>
        by_cases hkey' : key' = s.submissionId
        · subst hkey'
          have hsame : state.submission id = some s := by simpa [State.submission, hid] using hfind
          refine .inr ⟨s, hsame, fun c hc => hready ⟨s, c, ?_⟩, ?_⟩
          · have hcert := @certificate_congr state _ _ (hkey.trans hid.symm)
            exact ⟨hs, hc.queued, hc.free, hcert.trans hc.certified⟩
          · simp [State.submission, hid, find?_requeue hfind]
        · refine .inl ?_
          simp [State.submission, hid, find?_requeue hfind, hkey']
    · obtain ⟨-, rfl⟩ := Prod.mk.inj (Except.ok.inj h)
      exact Demotes.refl _

/-- What the record of an item in the list says about the item: if either is mintable, it is
the judgement of the item in the state at the start. -/
structure Judges (o : Oracles) (state : State) (id : Value) (r : MintRecord) : Prop where
  mintable : r.mintable = true → evaluate o state id = .ok (r, state)
  ready : ∀ s c, Ready state id s c → evaluate o state id = .ok (r, state)

/-- A judgement does not depend on the judgements before it. -/
theorem judges_of_demotes {start : State} {id : Value} {r : MintRecord}
    (hd : Demotes start state) (h : evaluate o state id = .ok (r, state')) :
    Judges o start id r := by
  have hready : ∀ s c, Ready start id s c → evaluate o start id = .ok (r, start) := by
    intro s c hc
    obtain ⟨hrecord, -⟩ := (evaluate_ready (hd.ready_iff.mpr hc)).mp h
    rw [hd.content] at hrecord
    exact (evaluate_ready hc).mpr ⟨hrecord, rfl⟩
  refine ⟨fun hmint => ?_, hready⟩
  obtain ⟨s, c, hc⟩ := ready_of_mintable h hmint
  exact hready s c (hd.ready_iff.mp hc)

theorem judges_evaluateAll {start : State} {ids : List Value} {records : List MintRecord}
    (hd : Demotes start state) (h : evaluateAll o state ids = .ok (records, state')) :
    List.Forall₂ (Judges o start) ids records ∧ Demotes start state' := by
  induction ids generalizing state records with
  | nil =>
    obtain ⟨rfl, rfl⟩ := Prod.mk.inj (Except.ok.inj h)
    exact ⟨.nil, hd⟩
  | cons id ids ih =>
    obtain ⟨⟨r, mid⟩, hr, h⟩ := bind_eq_ok.mp h
    obtain ⟨⟨others, last⟩, hothers, h⟩ := bind_eq_ok.mp h
    obtain ⟨rfl, rfl⟩ := Prod.mk.inj (Except.ok.inj h)
    obtain ⟨hrest, hlast⟩ := ih (hd.trans (demotes_evaluate hr)) hothers
    exact ⟨.cons (judges_of_demotes hd hr) hrest, hlast⟩

/-! ## The two paths -/

/-- The certificates of the queued submissions have pairwise distinct canonical order keys. -/
structure DistinctKeys (o : Oracles) (state : State) : Prop where
  keyed : ∀ id ∈ state.mintQueue, ∀ s c, Ready state id s c →
    ∃ key, canonicalMintOrderKey o c = .ok key
  distinct : ∀ id ∈ state.mintQueue, ∀ id' ∈ state.mintQueue, ∀ s c s' c',
    Ready state id s c → Ready state id' s' c' →
    canonicalMintOrderKey o c = canonicalMintOrderKey o c' → s.submissionId = s'.submissionId

/-- The entries of the ranking belong to the items that are ready. -/
theorem candidate_eq_ok {id : Value} {entry : MintOrderKey ×ₗ String}
    (h : candidate o state id = .ok (some entry)) :
    ∃ s c, Ready state id s c ∧ canonicalMintOrderKey o c = .ok (ofLex entry).1 ∧
      (ofLex entry).2 = id.text o.toRuntime := by
  unfold candidate at h
  cases hs : state.submission id with
  | none => simp [hs] at h
  | some s =>
    simp only [hs] at h
    split at h
    · cases h
    next hopen =>
      obtain ⟨hstatus, hfree⟩ := not_or.mp hopen
      cases hc : state.certificate id with
      | none => simp [hc] at h
      | some c =>
        simp only [hc] at h
        cases hkey : canonicalMintOrderKey o c with
        | error e =>
          simp only [hkey] at h
          split at h <;> cases h
        | ok key =>
          simp only [hkey] at h
          obtain rfl := Option.some.inj (Except.ok.inj h)
          exact ⟨s, c, ⟨hs, not_not.mp hstatus, Bool.eq_false_iff.mpr hfree, hc⟩, hkey, rfl⟩

theorem candidate_of_ready {id : Value} {s : Submission} {c : Certificate} {key : MintOrderKey}
    (hready : Ready state id s c) (hkey : canonicalMintOrderKey o c = .ok key) :
    candidate o state id = .ok (some (toLex (key, id.text o.toRuntime))) := by
  unfold candidate
  simp [hready.found, hready.queued, hready.free, hready.certified, hkey]

theorem candidate_isOk (hkeys : DistinctKeys o state) {id : Value} (hid : id ∈ state.mintQueue) :
    ∃ entry, candidate o state id = .ok entry := by
  by_cases hready : ∃ s c, Ready state id s c
  · obtain ⟨s, c, hready⟩ := hready
    obtain ⟨key, hkey⟩ := hkeys.keyed id hid s c hready
    exact ⟨_, candidate_of_ready hready hkey⟩
  · refine ⟨none, ?_⟩
    unfold candidate
    cases hs : state.submission id with
    | none => rfl
    | some s =>
      dsimp only
      split
      · rfl
      next hopen =>
        obtain ⟨hstatus, hfree⟩ := not_or.mp hopen
        cases hc : state.certificate id with
        | none => rfl
        | some c =>
          exact absurd ⟨s, c, hs, not_not.mp hstatus, Bool.eq_false_iff.mpr hfree, hc⟩ hready

/-- The search stops at the first entry whose judgement is mintable. -/
theorem evaluateUntil_eq {f : MintOrderKey ×ₗ String → MintRecord}
    {entries : List (MintOrderKey ×ₗ String)}
    (h : ∀ e ∈ entries, evaluate o state (.str (ofLex e).2) = .ok (f e, state)) :
    evaluateUntil o state entries =
      .ok ((entries.find? fun e => (f e).mintable).map f, state) := by
  induction entries with
  | nil => rfl
  | cons e entries ih =>
    have he := h e List.mem_cons_self
    have hrest := ih fun e he => h e (List.mem_cons_of_mem _ he)
    show (evaluate o state (.str (ofLex e).2) >>= fun r => _) = _
    rw [he, ok_bind]
    by_cases hmint : (f e).mintable = true
    · simp [hmint]
    · simp [hmint, hrest]

/-- A key that was looked for is looked for as itself. -/
theorem lookupKey_lookupKey {id : Value} {key : String} (h : lookupKey id = some key) :
    lookupKey (.str key) = some key := by
  cases id with
  | str t =>
    by_cases hne : strip t = ""
    · simp [lookupKey, hne] at h
    · obtain rfl : strip t = key := by simpa [lookupKey, hne] using h
      simp [lookupKey, strip_strip, hne]
  | _ => cases h

theorem Ready.lookupKey_eq {id : Value} {s : Submission} {c : Certificate}
    (h : Ready state id s c) : lookupKey id = some s.submissionId := by
  obtain ⟨key, hkey, hfind⟩ := Option.bind_eq_some_iff.mp h.found
  obtain rfl : s.submissionId = key := by simpa using List.find?_some hfind
  exact hkey

/-- An item that is found has a text as its id. -/
theorem Ready.id_eq {id : Value} {s : Submission} {c : Certificate} (h : Ready state id s c)
    (rt : Runtime) : id = .str (id.text rt) := by
  have hkey := h.lookupKey_eq
  cases id with
  | str t => rfl
  | _ => cases hkey

/-- The certificate is found again under the id of the submission. -/
theorem Ready.certificate_submissionId {id : Value} {s : Submission} {c : Certificate}
    (h : Ready state id s c) : state.certificate (.str s.submissionId) = some c := by
  have hsame := (lookupKey_lookupKey h.lookupKey_eq).trans h.lookupKey_eq.symm
  exact (certificate_congr hsame).trans h.certified

/-- The place of a mintable record in the list is that of its certificate. -/
theorem recordOrderKey_of_mintable {start : State} {id : Value} {s : Submission} {c : Certificate}
    {r : MintRecord} {key : RecordOrderKey} (hd : Demotes start state)
    (hready : Ready start id s c) (hr : evaluate o start id = .ok (r, start))
    (hmint : r.mintable = true) (hkey : recordOrderKey o state r = .ok key) :
    ∃ k, canonicalMintOrderKey o c = .ok k ∧ key = Sum.inlₗ k := by
  obtain ⟨hrecord, -⟩ := (evaluate_ready hready).mp hr
  have hr := readyRecord_of_record hready.queued hready.free hrecord
  have hid : (r.submissionId.orElse (.str "")).text o.toRuntime = s.submissionId := by
    rw [hr.submissionId]
    by_cases hempty : s.submissionId = "" <;> simp [Value.orElse, Value.truthy, Value.text, hempty]
  have hcert : state.certificate (.str s.submissionId) = some c := by
    rw [hd.certificate]
    exact hready.certificate_submissionId
  unfold recordOrderKey at hkey
  simp only [hid, hr.submissionStatus, hr.valid hmint, hr.mintBlocked, and_self, if_true,
    hcert, bind_eq_ok] at hkey
  obtain ⟨k, hk, hkey⟩ := hkey
  exact ⟨k, hk, (Except.ok.inj hkey).symm⟩

/-- Items of one submission have one record. -/
theorem evaluate_eq_of_submissionId {id id' : Value} {s s' : Submission} {c c' : Certificate}
    {r r' : MintRecord} (hready : Ready state id s c) (hready' : Ready state id' s' c')
    (hsame : s.submissionId = s'.submissionId)
    (hr : evaluate o state id = .ok (r, state)) (hr' : evaluate o state id' = .ok (r', state)) :
    r = r' := by
  have hkey : lookupKey id = lookupKey id' := by
    rw [hready.lookupKey_eq, hready'.lookupKey_eq, hsame]
  have hs : some s = some s' := by
    rw [← hready.found, ← hready'.found, submission_congr hkey]
  have hc : some c = some c' := by
    rw [← hready.certified, ← hready'.certified, certificate_congr hkey]
  obtain rfl := Option.some.inj hs
  obtain rfl := Option.some.inj hc
  obtain ⟨hrecord, -⟩ := (evaluate_ready hready).mp hr
  obtain ⟨hrecord', -⟩ := (evaluate_ready hready').mp hr'
  exact Except.ok.inj (hrecord.symm.trans hrecord')

/-- The record that the judgement of a ranked candidate gives. -/
def rankedRecord (o : Oracles) (state : State) (entry : MintOrderKey ×ₗ String) : MintRecord :=
  match evaluate o state (.str (ofLex entry).2) with
  | .ok (r, _) => r
  | .error _ => notFoundRecord (.str (ofLex entry).2)

/-- The candidates of the fast path, with what is known of each. -/
theorem ranked_spec {ids : List Value} {records : List MintRecord}
    {ranked : List (Option (MintOrderKey ×ₗ String))}
    (hjudges : List.Forall₂ (Judges o state) ids records)
    (hranked : ids.mapM (candidate o state) = .ok ranked)
    {entry : MintOrderKey ×ₗ String} (hentry : entry ∈ ranked.filterMap id) :
    ∃ i ∈ ids, ∃ r ∈ records, ∃ s c, Ready state i s c ∧
      canonicalMintOrderKey o c = .ok (ofLex entry).1 ∧ i = .str (ofLex entry).2 ∧
      evaluate o state i = .ok (r, state) ∧ rankedRecord o state entry = r := by
  obtain ⟨found, hfound, hsome⟩ := List.mem_filterMap.mp hentry
  obtain rfl : found = some entry := hsome
  obtain ⟨i, hi, hcand⟩ := mapM_eq_ok_mem hranked _ hfound
  obtain ⟨s, c, hready, hkey, htext⟩ := candidate_eq_ok hcand
  obtain ⟨r, hr, hjudge⟩ := exists_right_of_forall₂ hjudges hi
  have hid : i = .str (ofLex entry).2 := by rw [htext]; exact hready.id_eq _
  have heval := hjudge.ready s c hready
  refine ⟨i, hi, r, hr, s, c, hready, hkey, hid, heval, ?_⟩
  unfold rankedRecord
  rw [← hid, heval]

/-- On a queue whose certificates have distinct keys, the fast path returns the first record of
the mintable list, or nothing when there is none. -/
theorem firstMintable_eq_head? (hkeys : DistinctKeys o state) {includeBlocked : Bool}
    {records : List MintRecord} {after : State}
    (hlist : listed o state includeBlocked true = .ok (records, after)) :
    firstMintable o state = .ok (records.head?, state) := by
  obtain ⟨⟨all, last⟩, hall, hlist⟩ := bind_eq_ok.mp hlist
  obtain ⟨keyed, hkeyed, hlist⟩ := bind_eq_ok.mp hlist
  obtain ⟨hrecords, -⟩ := Prod.mk.inj (Except.ok.inj hlist)
  obtain ⟨hjudges, hd⟩ := judges_evaluateAll (Demotes.refl state) hall
  -- the list starts with the first mintable record of the order
  have hhead : records.head? =
      ((Scan.inOrder Prod.fst keyed).find? fun p => p.2.mintable).map Prod.snd := by
    rw [← hrecords, List.head?_filter, List.find?_map]
    congr 2
    funext p
    cases includeBlocked <;> simp
  obtain ⟨ranked, hranked⟩ :=
    exists_mapM_of_forall fun id (hid : id ∈ state.mintQueue) => candidate_isOk hkeys hid
  have hspec := fun entry hentry => @ranked_spec _ _ _ _ _ hjudges hranked entry hentry
  have hfast : firstMintable o state = .ok
      (((Scan.inOrder id (ranked.filterMap id)).find? fun e =>
        (rankedRecord o state e).mintable).map (rankedRecord o state), state) := by
    show (state.mintQueue.mapM (candidate o state) >>= fun _ => _) = _
    rw [hranked, ok_bind]
    refine evaluateUntil_eq fun e he => ?_
    obtain ⟨i, -, r, -, s, c, -, -, hid, heval, hr⟩ :=
      hspec e ((Scan.perm_inOrder id _).mem_iff.mp he)
    rw [← hid, hr, heval]
  rw [hfast, hhead]
  -- a record that is judged has a place in the list
  have hplaced : ∀ r ∈ all, ∃ p ∈ keyed, recordOrderKey o last r = .ok p.1 ∧ p.2 = r := by
    intro r hr
    obtain ⟨p, hp, hkey⟩ := exists_right_of_forall₂ (forall₂_of_mapM hkeyed) hr
    obtain ⟨key, hplace, h⟩ := bind_eq_ok.mp hkey
    obtain rfl := Except.ok.inj h
    exact ⟨_, hp, hplace, rfl⟩
  cases hslow : (Scan.inOrder Prod.fst keyed).find? fun p => p.2.mintable with
  | none =>
    have hnone := Scan.find?_inOrder_eq_none.mp hslow
    have hfast : ((Scan.inOrder id (ranked.filterMap id)).find? fun e =>
        (rankedRecord o state e).mintable) = none := by
      refine Scan.find?_inOrder_eq_none.mpr fun e he => ?_
      obtain ⟨-, -, r, hr, -, -, -, -, -, -, hrank⟩ := hspec e he
      obtain ⟨p, hp, -, rfl⟩ := hplaced r hr
      rw [hrank]
      exact hnone p hp
    rw [hfast]
    rfl
  | some p =>
    obtain ⟨hp, hmint, hleast⟩ := Scan.find?_inOrder hslow
    obtain ⟨r, hr, hpair⟩ := mapM_eq_ok_mem hkeyed p hp
    obtain ⟨key, hkey, h⟩ := bind_eq_ok.mp hpair
    obtain rfl := Except.ok.inj h
    obtain ⟨i, hi, hjudge⟩ := exists_left_of_forall₂ hjudges hr
    have heval := hjudge.mintable hmint
    obtain ⟨s, c, hready⟩ := ready_of_mintable heval hmint
    obtain ⟨k, hk, rfl⟩ := recordOrderKey_of_mintable hd hready heval hmint hkey
    -- its submission is a candidate
    obtain ⟨found, hfound, hcand⟩ := exists_right_of_forall₂ (forall₂_of_mapM hranked) hi
    rw [candidate_of_ready hready hk] at hcand
    obtain rfl := Except.ok.inj hcand
    have hentry : toLex (k, i.text o.toRuntime) ∈ ranked.filterMap id :=
      List.mem_filterMap.mpr ⟨_, hfound, rfl⟩
    have hrank : rankedRecord o state (toLex (k, i.text o.toRuntime)) = r := by
      unfold rankedRecord
      rw [ofLex_toLex, ← hready.id_eq o.toRuntime, heval]
    cases hfound' : (Scan.inOrder id (ranked.filterMap id)).find? fun e =>
        (rankedRecord o state e).mintable with
    | none =>
      have hnot := Scan.find?_inOrder_eq_none.mp hfound' _ hentry
      rw [hrank, hmint] at hnot
      cases hnot
    | some e =>
      obtain ⟨he, hemint, heleast⟩ := Scan.find?_inOrder hfound'
      obtain ⟨i', hi', r', hr', s', c', hready', hk', -, heval', hrank'⟩ := hspec e he
      rw [hrank'] at hemint
      obtain ⟨p', hp', hkey', rfl⟩ := hplaced r' hr'
      obtain ⟨k', hk'', hplace⟩ := recordOrderKey_of_mintable hd hready' heval' hemint hkey'
      obtain rfl := Except.ok.inj (hk'.symm.trans hk'')
      -- each comes before the other, so their keys are equal
      have hle : k ≤ (ofLex e).1 := by
        have h := hleast p' hp' hemint
        rw [hplace] at h
        exact Sum.Lex.inl_le_inl_iff.mp h
      have hge : (ofLex e).1 ≤ k := by
        have h := heleast _ hentry (by rw [hrank]; exact hmint)
        exact (Prod.Lex.le_iff.mp h).elim le_of_lt fun h => h.1.le
      have hsame := hkeys.distinct i hi i' hi' s c s' c' hready hready' (by
        rw [hk, hk', le_antisymm hle hge])
      have hrecord := evaluate_eq_of_submissionId hready hready' hsame heval heval'
      show Except.ok (some (rankedRecord o state e), state) = Except.ok (some r, state)
      rw [hrank', hrecord]

/-! ## A queue of three items -/

/-- A caller that accepts every certificate and every payload. -/
def sampleOracles : Oracles where
  toRuntime := asciiRuntime
  certificateValidator _ _ := .ok ()
  verifyContentObjectPayload _ := .ok { verified := true, error := .null }
  resolveLocalPath _ := none
  isFile _ := false
  extractText _ := .ok (.str "")
  divide a _ := .ok a

def sampleSubmission (id hash : String) : Submission where
  submissionId := id
  status := .queued
  contentHash := some hash
  contentId := none
  textContent := .str "a joke"
  mintBlocked := false
  mintBlockReason := .null
  mintBlockedAt := .null
  mintBlockedBy := .null
  mintBlockNotes := .null
  attestationRequirement := .legacy
  admissionCertificate := none

def sampleContent (hash : String) (storageStatus : StorageStatus) : ContentObject where
  contentHash := hash
  contentId := "cid-" ++ hash
  contentType := "text"
  mimeType := "text/plain"
  storageStatus := storageStatus
  localPath := .null

def sampleCertificate (id hash : String) : OriginalityCertificate where
  submissionId := id
  contentHash := hash
  voteHash := "00"
  certificateId := "c-" ++ id
  originalityScore := .int 1
  evidenceBindingStatus := .null

/-- The content with the least key is stored elsewhere, and one submission lost its
certificate. -/
def sampleState : State where
  submissions := [sampleSubmission "late" "0c", sampleSubmission "remote" "0a",
    sampleSubmission "bare" "0d", sampleSubmission "early" "0b"]
  contentObjects := [sampleContent "0a" .remote, sampleContent "0b" .verified,
    sampleContent "0c" .verified]
  originalityCertificates := [sampleCertificate "late" "0c", sampleCertificate "remote" "0a",
    sampleCertificate "early" "0b"]
  mintQueue := [.str "late", .str "remote", .str "bare", .str " early "]

/-- The items of the sample queue that are ready. -/
def sampleReady : List (Submission × Certificate) :=
  [("late", "0c"), ("remote", "0a"), ("early", "0b")].map fun (id, hash) =>
    (sampleSubmission id hash, .originality (sampleCertificate id hash))

theorem mem_sampleReady {id : Value} (hid : id ∈ sampleState.mintQueue) {s : Submission}
    {c : Certificate} (h : Ready sampleState id s c) : (s, c) ∈ sampleReady := by
  have hlookup : ∀ id ∈ sampleState.mintQueue, sampleState.certificate id = none ∨
      ∃ p ∈ sampleReady, sampleState.submission id = some p.1 ∧
        sampleState.certificate id = some p.2 := by
    decide +kernel
  obtain hnone | ⟨⟨s', c'⟩, hp, hs', hc'⟩ := hlookup id hid
  · rw [h.certified] at hnone
    cases hnone
  · obtain rfl := Option.some.inj (h.found.symm.trans hs')
    obtain rfl := Option.some.inj (h.certified.symm.trans hc')
    exact hp

theorem distinctKeys_sample : DistinctKeys sampleOracles sampleState where
  keyed id hid s c h := by
    have hkeyed : ∀ p ∈ sampleReady,
        (canonicalMintOrderKey sampleOracles p.2).toOption.isSome = true := by
      decide +kernel
    have hkey := hkeyed _ (mem_sampleReady hid h)
    cases hc : canonicalMintOrderKey sampleOracles c with
    | ok key => exact ⟨key, rfl⟩
    | error e => simp [hc, Except.toOption] at hkey
  distinct id hid id' hid' s c s' c' h h' := by
    have hdistinct : ∀ p ∈ sampleReady, ∀ q ∈ sampleReady,
        canonicalMintOrderKey sampleOracles p.2 = canonicalMintOrderKey sampleOracles q.2 →
        p.1.submissionId = q.1.submissionId := by
      decide +kernel
    exact hdistinct _ (mem_sampleReady hid h) _ (mem_sampleReady hid' h')

/-- The list of the sample queue starts with its second content, which the fast path finds. -/
theorem firstMintable_sample :
    ∃ first late after,
      listed sampleOracles sampleState true true = .ok ([first, late], after) ∧
      first.submissionId = .str "early" ∧
      firstMintable sampleOracles sampleState = .ok (some first, sampleState) := by
  have hlist : ∃ p, listed sampleOracles sampleState true true = .ok p ∧
      p.1.map MintRecord.submissionId = [.str "early", .str "late"] := by
    have hok : (match listed sampleOracles sampleState true true with
        | .ok p => p.1.map MintRecord.submissionId
        | .error _ => []) = [.str "early", .str "late"] := by
      decide +kernel
    cases h : listed sampleOracles sampleState true true with
    | ok p => exact ⟨p, rfl, by rwa [h] at hok⟩
    | error e => simp [h] at hok
  obtain ⟨⟨records, after⟩, hlist, hids⟩ := hlist
  obtain ⟨first, rest, rfl, hfirst, hrest⟩ := List.map_eq_cons_iff.mp hids
  obtain ⟨late, rest, rfl, -, hnil⟩ := List.map_eq_cons_iff.mp hrest
  obtain rfl := List.map_eq_nil_iff.mp hnil
  exact ⟨first, late, after, hlist, hfirst, firstMintable_eq_head? distinctKeys_sample hlist⟩

end ZoidbergChain.MintQueue
