import ZoidbergChain.Bft.Verifier

/-!
# Conflicting quorums are accountable (isolated_bft717k/verifier.py)

Two commits of one height are compared by what they commit to, two messages by who signed them
for which slot.

- `compareQuorums`, `compareMessages`: `compare_quorums` and `compare_messages`. An authority is
  its context; an authority of another type has none.
- `Certificate`: what a byte string certifies that `verify_quorum` accepts.
- `compareQuorums_accountable`: a conflict within a round names two validators at least, and the
  two votes of each are an equivocation.
-/

namespace ZoidbergChain

open Python CanonicalV3

namespace Bft

namespace Verifier

/-! ## Comparisons -/

/-- `Outcome`, as far as the comparisons give it. -/
inductive Answer where
  | verified (outcome : Outcome)
  | equivocation
  | retransmission
  | conflict
  | compatible
  deriving DecidableEq

/-- `Verification`, with the outcomes of the comparisons. -/
structure Comparison where
  outcome : Answer
  detail : String
  fixtureMembershipAuthenticated : Bool := false
  signaturesValid : Bool := false
  quorumStructureValid : Bool := false
  signatureChecks : Nat := 0
  distinctSigners : Nat := 0
  proofId : Option String := none

def Verification.toComparison (v : Verification) : Comparison where
  outcome := .verified v.outcome
  detail := v.detail
  fixtureMembershipAuthenticated := v.fixtureMembershipAuthenticated
  signaturesValid := v.signaturesValid
  quorumStructureValid := v.quorumStructureValid
  signatureChecks := v.signatureChecks
  distinctSigners := v.distinctSigners
  proofId := v.proofId

/-- What `_run` returns for an authority that is no `StaticTestAuthority`. -/
def withoutAuthority : Comparison where
  outcome := .verified .wrongContext
  detail := "explicit_local_test_authority_required"

/-- `_run`: what ends an action early is reported as for a quorum. -/
def runComparison (authority : Option Context) (action : Context → Audit Comparison) :
    Py Comparison :=
  match authority with
  | none => .ok withoutAuthority
  | some ctx =>
    match action ctx {} with
    | (.ok result, _) => .ok result
    | (.error e, work) => do
      return (← run fun _ => (.error e, work)).toComparison

section Compare

variable (crypto : Crypto) (authority : Option Context) (first second : ByteArray)

/-- `verify_quorum(authority, raw)`. -/
def verifyCommit (raw : ByteArray) : Py Comparison :=
  match authority with
  | none => .ok withoutAuthority
  | some ctx => do return (← verifyQuorum crypto ctx raw .q4).toComparison

/-- `parse(raw, 16384)['commitment']`. -/
def statedCommitment (raw : ByteArray) : Py Value := do
  let v ← parse raw 16384
  v.item "commitment"

/-- The outcome of two commitments. -/
def compareCommitments (x y : Value) : Py (Answer × String) := do
  let height ← x.item "block_height"
  let height' ← y.item "block_height"
  if height.pyEq height' = false then
    return (.verified .incompleteData, "cross_height_ancestry_requires_verified_blocks_and_prefix")
  else do
    let block ← x.item "block_hash"
    let parent ← x.item "parent_hash"
    let block' ← y.item "block_hash"
    let parent' ← y.item "parent_hash"
    if (block.pyEq block' && parent.pyEq parent') = false then
      return (.conflict, "retain_both_test_QCs; block_validity_and_finality_not_established")
    else
      return (.compatible, "same_target_and_parent; subsets_signatures_rounds_may_differ")

/-- `compare_quorums`, behind the verification of both. -/
def compareVerified (a b : Comparison) : Py Comparison := do
  let x ← statedCommitment first
  let y ← statedCommitment second
  let answer ← compareCommitments x y
  return { a with
    outcome := answer.1, detail := answer.2, proofId := none
    signatureChecks := a.signatureChecks + b.signatureChecks }

/-- `compare_quorums`, behind the verification of the first. -/
def compareSecond (a : Comparison) : Py Comparison := do
  let b ← verifyCommit crypto authority second
  if b.outcome ≠ .verified .validQuorum then
    .ok { b with signatureChecks := a.signatureChecks + b.signatureChecks }
  else compareVerified first second a b

/-- `compare_quorums`. -/
def compareQuorums : Py Comparison := do
  let a ← verifyCommit crypto authority first
  if a.outcome ≠ .verified .validQuorum then .ok a
  else compareSecond crypto authority first second a

/-- `slot_key`. -/
def slotKey (p : Dict) : Py Dict := do
  return [("height", ← p.index "block_height"), ("round", ← p.index "round"),
    ("purpose", ← p.index "step")]

/-- The payloads of two envelopes have one identity and one slot. -/
def checkSlot (a b : Value) : Py Unit := do
  let p ← objectItem a "payload"
  let q ← objectItem b "payload"
  let id ← p.index "validator_id"
  let id' ← q.index "validator_id"
  require (id.pyEq id' = true) (v3Error "different_identity_or_slot")
  let slot ← slotKey p
  let slot' ← slotKey q
  require ((Value.dict slot).pyEq (.dict slot') = true) (v3Error "different_identity_or_slot")

/-- `compare_messages`. -/
def compareMessages : Py Comparison :=
  runComparison authority fun ctx => do
    let s ← authenticate crypto ctx first
    let a ← Audit.ofPy ((Value.dict s).item "envelope")
    let s' ← authenticate crypto ctx second
    let b ← Audit.ofPy ((Value.dict s').item "envelope")
    Audit.ofPy (checkSlot a b)
    let written ← Audit.ofPy (J a)
    let written' ← Audit.ofPy (J b)
    let work ← get
    pure {
      outcome := if written = written' then .retransmission else .equivocation
      detail := "same_context_identity_height_round_purpose; static_authority_unchanged"
      fixtureMembershipAuthenticated := true, signaturesValid := true,
      signatureChecks := work.checks, distinctSigners := 1 }

end Compare

/-! ## What is compared -/

section Laws

variable {crypto : Crypto} {ctx : Context} {authority : Option Context}
  {raw first second : ByteArray}

theorem pyEq_exact_iff {v w : Value} (hv : v.isExact = true) (hw : w.isExact = true) :
    v.pyEq w = true ↔ v = w := by
  constructor
  · intro h
    exact Value.eq_of_pyEq hv hw h (Value.pyEq_self hw)
  · rintro rfl
    exact Value.pyEq_self hv

theorem isExact_optionText (s : Option String) : (optionText s).isExact = true := by
  cases s <;> rfl

theorem optionText_inj {s t : Option String} (h : optionText s = optionText t) : s = t := by
  cases s <;> cases t <;> cases h <;> rfl

/-- The fields of a commitment that are compared. -/
theorem item_commitment (p : Payload) :
    (Value.dict (p.commitment ctx)).item "block_height" = .ok (.int p.height) ∧
      (Value.dict (p.commitment ctx)).item "block_hash" = .ok (optionText p.blockHash) ∧
      (Value.dict (p.commitment ctx)).item "parent_hash" = .ok (.str p.parentHash) := by
  cases hs : p.step <;>
    simp [Payload.commitment, Payload.head, Step.validRound, hs, Value.item, Dict.index,
      Dict.get?_cons]

/-- Commitments of payloads are compared by their heights, and at one height by their targets. -/
theorem compareCommitments_eq (p q : Payload) :
    compareCommitments (.dict (p.commitment ctx)) (.dict (q.commitment ctx)) =
      .ok (if p.height ≠ q.height then
        (.verified .incompleteData, "cross_height_ancestry_requires_verified_blocks_and_prefix")
      else if ¬(p.blockHash = q.blockHash ∧ p.parentHash = q.parentHash) then
        (.conflict, "retain_both_test_QCs; block_validity_and_finality_not_established")
      else (.compatible, "same_target_and_parent; subsets_signatures_rounds_may_differ")) := by
  obtain ⟨hheight, hblock, hparent⟩ := item_commitment p
  obtain ⟨hheight', hblock', hparent'⟩ := item_commitment q
  have heights : (Value.int p.height).pyEq (.int q.height) = false ↔ p.height ≠ q.height := by
    rw [← Bool.not_eq_true, pyEq_exact_iff rfl rfl, Value.int.injEq]
  have targets : ((optionText p.blockHash).pyEq (optionText q.blockHash) &&
      (Value.str p.parentHash).pyEq (.str q.parentHash)) = false ↔
      ¬(p.blockHash = q.blockHash ∧ p.parentHash = q.parentHash) := by
    rw [← Bool.not_eq_true, Bool.and_eq_true, pyEq_exact_iff (isExact_optionText _)
      (isExact_optionText _), pyEq_exact_iff rfl rfl, Value.str.injEq]
    exact not_congr (and_congr_left fun _ => ⟨optionText_inj, fun heq => by rw [heq]⟩)
  rw [compareCommitments, hheight, hheight', ok_bind, ok_bind]
  by_cases hh : p.height ≠ q.height
  · rw [if_pos (heights.mpr hh), if_pos hh]
    rfl
  · rw [if_neg (heights.not.mpr hh), if_neg hh, hblock, hparent, hblock', hparent', ok_bind,
      ok_bind, ok_bind, ok_bind]
    by_cases ht : ¬(p.blockHash = q.blockHash ∧ p.parentHash = q.parentHash)
    · rw [if_pos (targets.mpr ht), if_pos ht]
      rfl
    · rw [if_neg (targets.not.mpr ht), if_neg ht]
      rfl

/-- The outcome of two commitments of payloads, by their targets. -/
theorem compareCommitments_outcome {p q : Payload} {answer : Answer} {detail : String}
    (h : compareCommitments (.dict (p.commitment ctx)) (.dict (q.commitment ctx)) =
      .ok (answer, detail)) :
    (answer = .conflict → p.height = q.height ∧
      ¬(p.blockHash = q.blockHash ∧ p.parentHash = q.parentHash)) ∧
    (answer = .compatible → p.height = q.height ∧ p.blockHash = q.blockHash ∧
      p.parentHash = q.parentHash) := by
  rw [compareCommitments_eq] at h
  have hanswer := congrArg Prod.fst (Except.ok.inj h)
  split_ifs at hanswer with hheight htarget
  · obtain rfl : Answer.verified .incompleteData = answer := hanswer
    exact ⟨nofun, nofun⟩
  · obtain rfl : Answer.compatible = answer := hanswer
    exact ⟨nofun, fun _ => ⟨not_not.mp hheight, htarget⟩⟩
  · obtain rfl : Answer.conflict = answer := hanswer
    exact ⟨fun _ => ⟨not_not.mp hheight, htarget⟩, nofun⟩

/-- What a commit certifies that is accepted. -/
structure Certificate (crypto : Crypto) (ctx : Context) (raw : ByteArray) (obj : Dict)
    (ms : List SignedMessage) (p : Payload) : Prop where
  parsed : parse raw 16384 = .ok (.dict obj)
  certified : Certified crypto ctx q4Shape obj ms (p.commitment ctx)
  stated : obj.get "commitment" = .dict (p.commitment ctx)

theorem certificate_of_verifyCommit {a : Comparison}
    (ha : verifyCommit crypto authority raw = .ok a)
    (hvalid : a.outcome = .verified .validQuorum) :
    ∃ ctx obj ms p, authority = some ctx ∧ Certificate crypto ctx raw obj ms p := by
  cases authority with
  | none =>
    obtain rfl := Except.ok.inj ha
    cases hvalid
  | some ctx =>
    obtain ⟨v, hv, hout⟩ := bind_eq_ok.mp ha
    obtain rfl := pure_eq_ok.mp hout
    have hquorum := (verifyQuorum_valid_iff crypto ctx).mp ⟨v, hv, by
      simpa [Verification.toComparison] using hvalid⟩
    obtain ⟨obj, ms, t, hparsed, hcertified, hstated⟩ := (verifier_eq_ok rfl).mp hquorum
    have hcount := hcertified.count
    obtain ⟨m, hm⟩ : ∃ m, m ∈ ms := List.exists_mem_of_length_pos (by omega)
    obtain rfl := hcertified.commitment m hm
    exact ⟨ctx, obj, ms, m.payload, rfl, hparsed, hcertified, hstated⟩

theorem index_of_get {d : Dict} {key : String} {v : Value} (h : d.get key = v) (hv : v ≠ .null) :
    d.index key = .ok v := by
  rw [Dict.get] at h
  rw [Dict.index]
  cases hget : Dict.get? d key with
  | none =>
    rw [hget] at h
    exact absurd h.symm hv
  | some w =>
    rw [hget] at h
    exact congrArg Except.ok h

theorem Certificate.statedCommitment {obj : Dict} {ms : List SignedMessage} {p : Payload}
    (c : Certificate crypto ctx raw obj ms p) :
    statedCommitment raw = .ok (.dict (p.commitment ctx)) := by
  rw [Verifier.statedCommitment, c.parsed, ok_bind]
  exact index_of_get c.stated nofun

/-- The outcome of a verification is no comparison. -/
theorem not_compared {a : Comparison} (ha : verifyCommit crypto authority raw = .ok a) {n : Nat} :
    ¬({ a with signatureChecks := n }.outcome = .conflict ∨
      { a with signatureChecks := n }.outcome = .compatible) := by
  cases authority with
  | none =>
    obtain rfl := Except.ok.inj ha
    rintro (h | h) <;> cases h
  | some ctx =>
    obtain ⟨v, -, hout⟩ := bind_eq_ok.mp ha
    obtain rfl := pure_eq_ok.mp hout
    rintro (h | h) <;> cases h

/-- Two quorums are compared by what they certify. -/
theorem compareQuorums_eq_ok {r : Comparison}
    (h : compareQuorums crypto authority first second = .ok r)
    (hr : r.outcome = .conflict ∨ r.outcome = .compatible) :
    ∃ ctx obj ms p obj' ms' q, authority = some ctx ∧ Certificate crypto ctx first obj ms p ∧
      Certificate crypto ctx second obj' ms' q ∧
      compareCommitments (.dict (p.commitment ctx)) (.dict (q.commitment ctx)) =
        .ok (r.outcome, r.detail) := by
  obtain ⟨a, ha, hfirst⟩ := bind_eq_ok.mp h
  split at hfirst
  · obtain rfl := Except.ok.inj hfirst
    exact absurd hr (not_compared ha)
  · next hvalid =>
    obtain ⟨b, hb, hsecond⟩ := bind_eq_ok.mp hfirst
    split at hsecond
    · obtain rfl := Except.ok.inj hsecond
      exact absurd hr (not_compared hb)
    · next hvalid' =>
      obtain ⟨ctx, obj, ms, p, hctx, c⟩ := certificate_of_verifyCommit ha (not_not.mp hvalid)
      obtain ⟨ctx', obj', ms', q, hctx', c'⟩ :=
        certificate_of_verifyCommit hb (not_not.mp hvalid')
      obtain rfl := Option.some.inj (hctx.symm.trans hctx')
      obtain ⟨x, hx, hstated⟩ := bind_eq_ok.mp hsecond
      obtain ⟨y, hy, hstated⟩ := bind_eq_ok.mp hstated
      obtain ⟨answer, hcompare, hout⟩ := bind_eq_ok.mp hstated
      obtain rfl := Except.ok.inj (c.statedCommitment.symm.trans hx)
      obtain rfl := Except.ok.inj (c'.statedCommitment.symm.trans hy)
      obtain rfl := pure_eq_ok.mp hout
      exact ⟨ctx, obj, ms, p, obj', ms', q, hctx, c, c', hcompare⟩

/-! ## The votes of two certificates -/

/-- The precommits of a certificate. -/
def precommits (raw : ByteArray) : Py (List Value) := do
  let v ← parse raw 16384
  match ← v.item "precommits" with
  | .list votes => .ok votes
  | _ => .error (.type "precommits are no list")

/-- The identities of the validators that signed votes. -/
def signersOf (votes : List Value) : Finset String :=
  (votes.filterMap fun v => (validatorIdOf v).toOption).toFinset

theorem Certificate.precommits {obj : Dict} {ms : List SignedMessage} {p : Payload}
    (c : Certificate crypto ctx raw obj ms p) :
    precommits raw = .ok (ms.map fun m => .dict (m.toDict ctx)) := by
  have hvotes : Dict.index obj "precommits" = .ok (.list (ms.map fun m => .dict (m.toDict ctx))) :=
    index_of_get c.certified.votes nofun
  rw [Verifier.precommits, c.parsed, ok_bind]
  show (Dict.index obj "precommits" >>= _) = _
  rw [hvotes]
  rfl

theorem signersOf_votes (ms : List SignedMessage) :
    signersOf (ms.map fun m => .dict (m.toDict ctx)) =
      (ms.map fun m => m.payload.validatorId).toFinset := by
  rw [signersOf, List.filterMap_map]
  congr 1
  induction ms with
  | nil => rfl
  | cons m ms ih =>
    have hid : (validatorIdOf (.dict (m.toDict ctx))).toOption = some m.payload.validatorId := by
      rw [validatorIdOf_toDict]
      rfl
    rw [List.map_cons, ← ih]
    exact List.filterMap_cons_some hid

/-- A certificate has three signers at least, all of them members. -/
theorem Certificate.signers {obj : Dict} {ms : List SignedMessage} {p : Payload}
    (c : Certificate crypto ctx raw obj ms p) :
    3 ≤ (ms.map fun m => m.payload.validatorId).toFinset.card ∧
      (ms.map fun m => m.payload.validatorId).toFinset ⊆ ctx.members.keys.toFinset := by
  have hnodup : (ms.map fun m => m.payload.validatorId).Nodup := c.certified.order.imp ne_of_lt
  constructor
  · rw [List.toFinset_card_of_nodup hnodup, List.length_map]
    exact c.certified.count.1
  · intro id hid
    obtain ⟨m, hm, rfl⟩ := List.mem_map.mp (List.mem_toFinset.mp hid)
    have hmember := (c.certified.signed m hm).1.payload.member
    refine List.mem_toFinset.mpr (not_not.mp fun hnot => ?_)
    rw [Table.get?_eq_none.mpr hnot] at hmember
    cases hmember

/-- Three signers and three signers of four members have two in common. -/
theorem two_le_inter {members a b : Finset String} (hmembers : members.card ≤ 4)
    (ha : a ⊆ members) (hb : b ⊆ members) (hthree : 3 ≤ a.card) (hthree' : 3 ≤ b.card) :
    2 ≤ (a ∩ b).card := by
  have hunion := Finset.card_le_card (Finset.union_subset ha hb)
  have hsum := Finset.card_union_add_card_inter a b
  omega

/-! ## Two votes of one validator -/

theorem authenticate_ok {work : Work} {s : Dict} (h : signed crypto raw ctx = .ok s) :
    authenticate crypto ctx raw work = (.ok s, { work with checks := work.checks + 1 }) := by
  have hcount : Audit.count (fun work => { work with checks := work.checks + 1 }) work =
      (.ok (), { work with checks := work.checks + 1 }) := rfl
  rw [authenticate, audit_bind_ok hcount, h]
  rfl

theorem ofPy_ok {α : Type} {x : Py α} {work : Work} {a : α} (h : x = .ok a) :
    Audit.ofPy x work = (.ok a, work) := by
  rw [h]
  rfl

theorem objectItem_envelope (p : Payload) :
    objectItem (.dict (p.envelope ctx)) "payload" = .ok (p.toDict ctx) := by
  simp [objectItem, Value.item, Dict.index, Payload.envelope, Dict.get?_cons, Value.asDict]

/-- The fields of a payload that name its signer and its slot. -/
theorem index_payload (p : Payload) :
    (p.toDict ctx).index "validator_id" = .ok (.str p.validatorId) ∧
      slotKey (p.toDict ctx) = .ok [("height", .int p.height), ("round", .int p.round),
        ("purpose", .str p.step.name)] := by
  cases hs : p.step <;>
    simp [Payload.toDict, Payload.head, Step.validRound, hs, slotKey, Dict.index, Dict.get?_cons]

theorem checkSlot_of_same {p q : Payload} (hid : p.validatorId = q.validatorId)
    (hheight : p.height = q.height) (hround : p.round = q.round) (hstep : p.step.name = q.step.name) :
    checkSlot (.dict (p.envelope ctx)) (.dict (q.envelope ctx)) = .ok () := by
  obtain ⟨hindex, hslot⟩ := index_payload p
  obtain ⟨hindex', hslot'⟩ := index_payload q
  have hself : (Value.dict [("height", .int q.height), ("round", .int q.round),
      ("purpose", .str q.step.name)]).pyEq (.dict [("height", .int q.height),
        ("round", .int q.round), ("purpose", .str q.step.name)]) = true := by
    simp [Value.pyEq, Value.pyEqDict, Dict.get?_cons, Value.number?]
  rw [checkSlot, objectItem_envelope, objectItem_envelope, ok_bind, ok_bind, hindex, hindex',
    ok_bind, ok_bind, hid, require_pos (Value.pyEq_self rfl), ok_bind, hslot, hslot', ok_bind,
    ok_bind, hheight, hround, hstep, require_pos hself]

/-- Envelopes of different targets are written differently. -/
theorem targets_of_envelope {p q : Payload} (h : p.envelope ctx = q.envelope ctx) :
    p.blockHash = q.blockHash ∧ p.parentHash = q.parentHash := by
  have hpayload : p.toDict ctx = q.toDict ctx := by
    have hitem := @objectItem_envelope ctx p
    rw [h, objectItem_envelope] at hitem
    exact (Except.ok.inj hitem).symm
  obtain ⟨-, -, -, -, hparent, -, -, -, hblock, -, -⟩ := get_toDict ctx p
  obtain ⟨-, -, -, -, hparent', -, -, -, hblock', -, -⟩ := get_toDict ctx q
  rw [hpayload] at hparent hblock
  exact ⟨optionText_inj (hblock.symm.trans hblock'),
    Value.str.inj (hparent.symm.trans hparent')⟩

/-- Two votes of one validator for one slot and different targets are an equivocation. -/
theorem compareMessages_equivocation {m m' : SignedMessage} (hm : m.Signed crypto ctx)
    (hm' : m'.Signed crypto ctx) (hid : m.payload.validatorId = m'.payload.validatorId)
    (hheight : m.payload.height = m'.payload.height)
    (hround : m.payload.round = m'.payload.round)
    (hstep : m.payload.step.name = m'.payload.step.name)
    (hne : ¬(m.payload.blockHash = m'.payload.blockHash ∧
      m.payload.parentHash = m'.payload.parentHash)) :
    ∃ raw raw' c, J (.dict (m.toDict ctx)) = .ok raw ∧ J (.dict (m'.toDict ctx)) = .ok raw' ∧
      compareMessages crypto (some ctx) raw raw' = .ok c ∧ c.outcome = .equivocation := by
  obtain ⟨hvalid, raw, hJ, hsize⟩ := hm
  obtain ⟨hvalid', raw', hJ', hsize'⟩ := hm'
  have hsigned := signed_eq_ok.mpr ⟨m, hvalid, rfl, hJ, hsize⟩
  have hsigned' := signed_eq_ok.mpr ⟨m', hvalid', rfl, hJ', hsize'⟩
  have hitem : ∀ n : SignedMessage, (Value.dict (n.toDict ctx)).item "envelope" =
      .ok (.dict (n.payload.envelope ctx)) := fun n => index_of_get (get_signed ctx n).1 nofun
  obtain ⟨written, hwritten, -, -⟩ := hvalid.recovered
  obtain ⟨written', hwritten', -, -⟩ := hvalid'.recovered
  have hdiffer : written ≠ written' := by
    rintro rfl
    have hsame := J_inj (ordered_envelope ctx _) (ordered_envelope ctx _) hwritten hwritten'
    exact hne (targets_of_envelope (Value.dict.inj hsame))
  have hrun : ∃ c, compareMessages crypto (some ctx) raw raw' = .ok c ∧
      c.outcome = .equivocation := by
    unfold compareMessages runComparison
    dsimp only
    rw [audit_bind_ok (authenticate_ok hsigned), audit_bind_ok (ofPy_ok (hitem m)),
      audit_bind_ok (authenticate_ok hsigned'), audit_bind_ok (ofPy_ok (hitem m')),
      audit_bind_ok (ofPy_ok (checkSlot_of_same hid hheight hround hstep)),
      audit_bind_ok (ofPy_ok hwritten), audit_bind_ok (ofPy_ok hwritten')]
    exact ⟨_, rfl, if_neg hdiffer⟩
  obtain ⟨c, hc, hequivocation⟩ := hrun
  exact ⟨raw, raw', c, hJ, hJ', hc, hequivocation⟩

/-! ## Accountability -/

/-- The heights, the targets and the rounds of two commitments. -/
theorem get_target (p : Payload) :
    (p.commitment ctx).get "block_height" = .int p.height ∧
      (p.commitment ctx).get "block_hash" = optionText p.blockHash ∧
      (p.commitment ctx).get "parent_hash" = .str p.parentHash ∧
      (p.commitment ctx).get "round" = .int p.round := by
  obtain ⟨-, -, -, hheight, hround, -, hparent, -, -, hblock⟩ := get_commitment ctx p
  exact ⟨hheight, hblock, hparent, hround⟩

/-- A vote of a certificate has the slot and the target of its commitment. -/
theorem Certificate.vote {obj : Dict} {ms : List SignedMessage} {p : Payload}
    (c : Certificate crypto ctx raw obj ms p) {m : SignedMessage} (hm : m ∈ ms) :
    m.payload.height = p.height ∧ m.payload.round = p.round ∧
      m.payload.step.name = "precommit" ∧ m.payload.blockHash = p.blockHash ∧
      m.payload.parentHash = p.parentHash := by
  have hsame := c.certified.commitment m hm
  obtain ⟨hheight, hblock, hparent, hround⟩ := get_target m.payload
  obtain ⟨hheight', hblock', hparent', hround'⟩ := get_target p
  obtain ⟨hstep, -⟩ := get_commitment ctx m.payload
  have hprecommit : (p.commitment ctx).get "step" = .str "precommit" := c.certified.step
  rw [hsame] at hheight hblock hparent hround hstep
  exact ⟨Value.int.inj (hheight.symm.trans hheight'), Value.int.inj (hround.symm.trans hround'),
    Value.str.inj (hstep.symm.trans hprecommit), optionText_inj (hblock.symm.trans hblock'),
    Value.str.inj (hparent.symm.trans hparent')⟩

/-- Conflicting certificates have one height and different targets, compatible ones the same. A
conflict within a round has two validators at least that voted in both, and comparing the two votes
of any of them finds an equivocation. -/
theorem compareQuorums_accountable {r : Comparison}
    (h : compareQuorums crypto authority first second = .ok r) :
    (r.outcome = .conflict → ∃ x y : Dict, statedCommitment first = .ok (.dict x) ∧
      statedCommitment second = .ok (.dict y) ∧ x.get "block_height" = y.get "block_height" ∧
      (x.get "block_hash", x.get "parent_hash") ≠ (y.get "block_hash", y.get "parent_hash") ∧
      ((x.get "round").pyEq (y.get "round") = true →
        ∃ votes votes', precommits first = .ok votes ∧ precommits second = .ok votes' ∧
          2 ≤ (signersOf votes ∩ signersOf votes').card ∧
          ∀ v ∈ votes, ∀ v' ∈ votes', ∀ id, validatorIdOf v = .ok id → validatorIdOf v' = .ok id →
            ∃ raw raw' c, J v = .ok raw ∧ J v' = .ok raw' ∧
              compareMessages crypto authority raw raw' = .ok c ∧ c.outcome = .equivocation)) ∧
    (r.outcome = .compatible → ∃ x y : Dict, statedCommitment first = .ok (.dict x) ∧
      statedCommitment second = .ok (.dict y) ∧ x.get "block_height" = y.get "block_height" ∧
      (x.get "block_hash", x.get "parent_hash") = (y.get "block_hash", y.get "parent_hash")) := by
  constructor
  · intro hconflict
    obtain ⟨ctx, obj, ms, p, obj', ms', q, rfl, c, c', hcompare⟩ :=
      compareQuorums_eq_ok h (.inl hconflict)
    obtain ⟨hheight, hne⟩ := (compareCommitments_outcome hcompare).1 hconflict
    obtain ⟨hx, hblock, hparent, hround⟩ := get_target p
    obtain ⟨hy, hblock', hparent', hround'⟩ := get_target q
    refine ⟨_, _, c.statedCommitment, c'.statedCommitment, by rw [hx, hy, hheight], ?_, ?_⟩
    · rw [hblock, hparent, hblock', hparent']
      intro heq
      obtain ⟨hblocks, hparents⟩ := Prod.mk.inj heq
      exact hne ⟨optionText_inj hblocks, Value.str.inj hparents⟩
    · intro hrounds
      rw [hround, hround', pyEq_exact_iff rfl rfl, Value.int.injEq] at hrounds
      refine ⟨_, _, c.precommits, c'.precommits, ?_, ?_⟩
      · obtain ⟨hthree, hmembers⟩ := c.signers
        obtain ⟨hthree', hmembers'⟩ := c'.signers
        rw [signersOf_votes, signersOf_votes]
        refine two_le_inter ?_ hmembers hmembers' hthree hthree'
        rw [List.toFinset_card_of_nodup ctx.nodup_ids, Table.keys, List.length_map,
          ctx.length_members]
      · intro v hv v' hv' id hid hid'
        obtain ⟨m, hm, rfl⟩ := List.mem_map.mp hv
        obtain ⟨m', hm', rfl⟩ := List.mem_map.mp hv'
        rw [validatorIdOf_toDict] at hid hid'
        obtain ⟨hh, hr, hs, hb, hp⟩ := c.vote hm
        obtain ⟨hh', hr', hs', hb', hp'⟩ := c'.vote hm'
        refine compareMessages_equivocation (c.certified.signed m hm) (c'.certified.signed m' hm')
          ((Except.ok.inj hid).trans (Except.ok.inj hid').symm) ?_ ?_ (hs.trans hs'.symm) ?_
        · rw [hh, hh', hheight]
        · rw [hr, hr', hrounds]
        · rw [hb, hb', hp, hp']
          exact hne
  · intro hcompatible
    obtain ⟨ctx, obj, ms, p, obj', ms', q, rfl, c, c', hcompare⟩ :=
      compareQuorums_eq_ok h (.inr hcompatible)
    obtain ⟨hheight, hsame, hsame'⟩ := (compareCommitments_outcome hcompare).2 hcompatible
    obtain ⟨hx, hblock, hparent, -⟩ := get_target p
    obtain ⟨hy, hblock', hparent', -⟩ := get_target q
    refine ⟨_, _, c.statedCommitment, c'.statedCommitment, by rw [hx, hy, hheight], ?_⟩
    rw [hblock, hparent, hblock', hparent', hsame, hsame']

end Laws

/-! ## Two commits of one round -/

/-- A message of the first height for a block. -/
def sampleFor (step : Step) (b c : Char) : SignedMessage where
  payload := ⟨step, 1, 0, repeated 64 '0', some (repeated 64 b), sampleId c⟩
  signature := (sampleMessage c).signature

/-- The precommits of three validators for a block, with its proposal. -/
def sampleCommit (b : Char) : Dict :=
  [("commitment", .dict ((sampleFor .precommit b '1').payload.commitment sampleContext)),
    ("precommits", .list (['1', '2', '3'].map fun c =>
      .dict ((sampleFor .precommit b c).toDict sampleContext))),
    ("proof_version", .int 4),
    ("proposal", .dict ((sampleFor (.propose (-1)) b '1').toDict sampleContext))]

theorem sampleFor_valid {step : Step} {b c : Char} (hb : isLowerHex b = true)
    (hc : c ∈ ['1', '2', '3'])
    (hstep : step = .precommit ∨ step = .propose (-1) ∧ c = '1') :
    (sampleFor step b c).Valid sampleCrypto sampleContext := by
  obtain ⟨hvalid, -⟩ := sampleMessage_signed hc
  obtain ⟨_, -, -, hkey⟩ := hvalid.recovered
  have hhash : isHash (repeated 64 '0') := isHash_repeated (by decide)
  have hpayload : (sampleFor step b c).payload.Valid sampleContext := {
    height := (by decide : (1 : Int) ≤ 1 ∧ (1 : Int) ≤ maxUint)
    round := (by decide : (0 : Int) ≤ 0 ∧ (0 : Int) ≤ maxRound)
    context := hvalid.payload.context
    parentHash := hhash
    parent := fun _ => rfl
    blockHash := by
      rintro s ⟨⟩
      exact isHash_repeated hb
    validatorId := hvalid.payload.validatorId
    member := hvalid.payload.member
    proposal := by
      intro vr hvr
      obtain rfl | ⟨rfl, rfl⟩ := hstep
      · cases hvr
      · obtain rfl := Step.propose.inj hvr
        have hproposer : sampleContext.members.get? (sampleId '1') =
            some (sampleContext.proposer 1 0) := by
          decide +kernel
        exact ⟨nofun, by decide, (by decide : (-1 : Int) ≤ 0 - 1), hproposer⟩ }
  obtain ⟨raw, hJ, hsize⟩ := J_of_fits (ordered_envelope sampleContext _)
    (fits_envelope sample_plainNetwork hpayload (by decide : 0 + 1 < maxDepth))
  exact ⟨hpayload, hvalid.grammar, raw, hJ, le_trans hsize (by decide), hkey⟩

theorem ordered_commitment (p : Payload) : Ordered (.dict (p.commitment sampleContext)) := by
  refine ⟨sorted_commitment sampleContext p, objectsEntries_iff.mpr fun e he => ?_⟩
  have hexact := exact_commitment sampleContext p e he
  cases hv : e.2 with
  | list _ | dict _ =>
    rw [hv] at hexact
    cases hexact
  | _ => trivial

theorem sampleCommit_parsed {b : Char} (hb : isLowerHex b = true) :
    ∃ raw, parse raw 16384 = .ok (.dict (sampleCommit b)) := by
  have hhash : ∀ c, isLowerHex c = true → Fits 2 66 (.str (repeated 64 c)) := fun c hc =>
    fits_hash (isHash_repeated hc)
  have hnumber : ∀ m : Int, 0 ≤ m ∧ m ≤ 1 → Fits 2 1 (.int m) := fun m hm =>
    fits_number (by decide) hm (by decide) (by decide)
  have hstep : Fits 2 11 (.str "precommit") :=
    fits_text (n := 9) (by decide) (by decide) (by decide)
  have hstated : Fits 1 700
      (.dict ((sampleFor .precommit b '1').payload.commitment sampleContext)) := by
    have hall : List.Forall₂ (EntryFits 2)
        ((sampleFor .precommit b '1').payload.commitment sampleContext)
        [94, 80, 17, 82, 20, 81, 10, 19, 20, 94] :=
      .cons (entryFits (by decide) (hhash 'a' (by decide)) (by decide)) <|
      .cons (entryFits (by decide) (hhash b hb) (by decide)) <|
      .cons (entryFits (by decide) (hnumber 1 (by decide)) (by decide)) <|
      .cons (entryFits (by decide) (hhash '0' (by decide)) (by decide)) <|
      .cons (entryFits (by decide) (hnumber 1 (by decide)) (by decide)) <|
      .cons (entryFits (by decide) (hhash '0' (by decide)) (by decide)) <|
      .cons (entryFits (by decide) (hnumber 0 (by decide)) (by decide)) <|
      .cons (entryFits (by decide) hstep (by decide)) <|
      .cons (entryFits (by decide) (hnumber 0 (by decide)) (by decide)) <|
      .cons (entryFits (by decide) (hhash 'c' (by decide)) (by decide)) .nil
    exact fits_dict (by simp [Payload.commitment, Payload.head]) (by decide) hall (by decide)
      (by decide)
  have hvotes : Fits 1 3604 (.list (['1', '2', '3'].map fun c =>
      .dict ((sampleFor .precommit b c).toDict sampleContext))) := by
    refine fits_list (m := 1200) (by simp) (by decide) ?_ (by simp)
    intro x hx
    obtain ⟨c, hc, rfl⟩ := List.mem_map.mp hx
    exact fits_signed sample_plainNetwork (sampleFor_valid hb hc (.inl rfl)) (by decide)
  have hproposal : Fits 1 1200
      (.dict ((sampleFor (.propose (-1)) b '1').toDict sampleContext)) :=
    fits_signed sample_plainNetwork (sampleFor_valid hb (by simp) (.inr ⟨rfl, rfl⟩)) (by decide)
  have hobject : Fits 0 6000 (.dict (sampleCommit b)) := by
    have hall : List.Forall₂ (EntryFits 1) (sampleCommit b) [714, 3618, 18, 1212] :=
      .cons (entryFits (by decide) hstated (by decide)) <|
      .cons (entryFits (by decide) hvotes (by decide)) <|
      .cons (entryFits (by decide) (fits_number (k := 1) (m := 4) (by decide)
        (by decide : (0 : Int) ≤ 4 ∧ (4 : Int) ≤ 4) (by decide) (by decide)) (by decide)) <|
      .cons (entryFits (by decide) hproposal (by decide)) .nil
    exact fits_dict (by simp [sampleCommit]) (by decide) hall (by decide) (by decide)
  have hordered : Ordered (.dict (sampleCommit b)) := by
    refine ⟨show ["commitment", "precommits", "proof_version", "proposal"].Pairwise (· < ·) by
      decide +kernel, ?_, ?_, trivial, ordered_signed sampleContext _, trivial⟩
    · exact ordered_commitment _
    · refine objectsItems_iff.mpr fun x hx => ?_
      obtain ⟨c, -, rfl⟩ := List.mem_map.mp hx
      exact ordered_signed sampleContext _
  obtain ⟨raw, hJ, hsize⟩ := J_of_fits hordered hobject
  exact ⟨raw, parse_eq_ok.mpr ⟨le_trans hsize (by decide), hordered, hJ⟩⟩

theorem sampleCommit_certificate {b : Char} (hb : isLowerHex b = true) {raw : ByteArray}
    (hraw : parse raw 16384 = .ok (.dict (sampleCommit b))) :
    Certificate sampleCrypto sampleContext raw (sampleCommit b)
      (['1', '2', '3'].map (sampleFor .precommit b)) (sampleFor .precommit b '1').payload where
  parsed := hraw
  stated := by simp [sampleCommit, Dict.get, Dict.get?_cons]
  certified := {
    fields := closed_of_keys fun k => by
      simp [sampleCommit, q4Shape, or_comm, or_left_comm]
    number := by simp [sampleCommit, q4Shape, Dict.get, Dict.get?_cons]
    votes := by simp [sampleCommit, q4Shape, Dict.get, Dict.get?_cons]
    signed := by
      intro m hm
      obtain ⟨c, hc, rfl⟩ := List.mem_map.mp hm
      exact signed_of_valid sample_plainNetwork (sampleFor_valid hb hc (.inl rfl))
    count := by simp
    order := by
      show [sampleId '1', sampleId '2', sampleId '3'].Pairwise (· < ·)
      decide +kernel
    commitment := by
      intro m hm
      obtain ⟨c, -, rfl⟩ := List.mem_map.mp hm
      rfl
    step := (get_commitment sampleContext _).1
    proposal := by
      intro _
      refine ⟨?_, sampleFor (.propose (-1)) b '1', signed_of_valid sample_plainNetwork
        (sampleFor_valid hb (by simp) (.inr ⟨rfl, rfl⟩)), ?_, rfl, rfl⟩
      · rw [(get_target _).2.1]
        intro h
        cases h
      · simp [sampleCommit, Dict.get, Dict.get?_cons] }

theorem compareQuorums_accountable_sample : ∃ first second r,
    compareQuorums sampleCrypto (some sampleContext) first second = .ok r ∧
      r.outcome = .conflict ∧
      ∃ votes votes', precommits first = .ok votes ∧ precommits second = .ok votes' ∧
        2 ≤ (signersOf votes ∩ signersOf votes').card := by
  obtain ⟨first, hfirst⟩ := sampleCommit_parsed (b := 'd') (by decide)
  obtain ⟨second, hsecond⟩ := sampleCommit_parsed (b := 'e') (by decide)
  have c := sampleCommit_certificate (by decide) hfirst
  have c' := sampleCommit_certificate (by decide) hsecond
  have hverified : ∀ {raw obj ms p}, Certificate sampleCrypto sampleContext raw obj ms p →
      ∃ a, verifyCommit sampleCrypto (some sampleContext) raw = .ok a ∧
        a.outcome = .verified .validQuorum := by
    intro raw obj ms p c
    obtain ⟨v, hv, hvalid⟩ := (verifyQuorum_valid_iff sampleCrypto sampleContext).mpr
      ((@verifier_eq_ok sampleCrypto sampleContext q4Shape .q4 rfl _ _).mpr
        ⟨obj, ms, _, show parse raw ProofKind.q4.limit = _ from c.parsed, c.certified, c.stated⟩)
    refine ⟨v.toComparison, ?_, by rw [Verification.toComparison, hvalid]⟩
    rw [verifyCommit, hv]
    rfl
  obtain ⟨a, ha, hvalid⟩ := hverified c
  obtain ⟨b, hb, hvalid'⟩ := hverified c'
  have hblocks : ¬((sampleFor .precommit 'd' '1').payload.blockHash =
        (sampleFor .precommit 'e' '1').payload.blockHash ∧
      (sampleFor .precommit 'd' '1').payload.parentHash =
        (sampleFor .precommit 'e' '1').payload.parentHash) := by
    decide +kernel
  have hheights : ¬((sampleFor .precommit 'd' '1').payload.height ≠
      (sampleFor .precommit 'e' '1').payload.height) := not_not.mpr rfl
  have hrun : ∃ r, compareQuorums sampleCrypto (some sampleContext) first second = .ok r ∧
      r.outcome = .conflict := by
    rw [compareQuorums, ha, ok_bind, if_neg (not_not.mpr hvalid), compareSecond, hb, ok_bind,
      if_neg (not_not.mpr hvalid')]
    unfold compareVerified
    rw [c.statedCommitment, c'.statedCommitment, ok_bind, ok_bind, compareCommitments_eq,
      if_neg hheights, if_pos hblocks, ok_bind]
    exact ⟨_, rfl, rfl⟩
  obtain ⟨r, hr, houtcome⟩ := hrun
  obtain ⟨x, y, hx, hy, -, -, hvotes⟩ :=
    (compareQuorums_accountable hr).1 houtcome
  obtain rfl := Value.dict.inj (Except.ok.inj (c.statedCommitment.symm.trans hx))
  obtain rfl := Value.dict.inj (Except.ok.inj (c'.statedCommitment.symm.trans hy))
  obtain ⟨votes, votes', h, h', hcard, -⟩ := hvotes (by
    rw [(get_target _).2.2.2, (get_target _).2.2.2]
    exact Value.pyEq_self rfl)
  exact ⟨first, second, r, hr, houtcome, votes, votes', h, h', hcard⟩

end Verifier

end Bft

end ZoidbergChain
