import ZoidbergChain.Bft.Reducer
import ZoidbergChain.Bft.Verifier

/-!
# What the reducer enables

A reservation that `plan` computes, by its rule: the guards on the state, the evidence behind it
as signed messages, and the state that it leads to.

- `Answers`, `Polka`: a proposal and a quorum of prevotes for a payload.
- `PlanCase`: the reservations by their rule.
- `plan_cases`: a reservation is one of them, and it records its messages.
-/

namespace ZoidbergChain

open Python CanonicalV3

namespace Bft

variable {id : Identity}

/-! ## Drafts -/

namespace Draft

/-- The signed messages among the records. -/
def signedRaws (d : Draft) : Set ByteArray := {raw | ⟨"signed", raw⟩ ∈ d.deps}

@[simp] theorem putRaw_state (d : Draft) (kind : String) (raw : ByteArray) :
    (d.putRaw kind raw).state = d.state := by
  unfold putRaw
  split_ifs <;> rfl

@[simp] theorem putRaw_messages (d : Draft) (kind : String) (raw : ByteArray) :
    (d.putRaw kind raw).messages = d.messages := by
  unfold putRaw
  split_ifs <;> rfl

theorem mem_putRaw {d : Draft} {kind : String} {raw : ByteArray} {x : Dep} :
    x ∈ (d.putRaw kind raw).deps ↔ x ∈ d.deps ∨ x = ⟨kind, raw⟩ := by
  unfold putRaw
  split_ifs with h
  · exact ⟨Or.inl, fun hx => hx.elim (fun hx => hx) fun hx => hx ▸ h⟩
  · simp

theorem signedRaws_putRaw_signed (d : Draft) (raw : ByteArray) :
    (d.putRaw "signed" raw).signedRaws = insert raw d.signedRaws := by
  ext x
  rw [Set.mem_insert_iff, or_comm]
  exact mem_putRaw.trans (or_congr Iff.rfl ⟨fun h => congrArg Dep.raw h, fun h => h ▸ rfl⟩)

theorem signedRaws_putRaw {kind : String} (h : kind ≠ "signed") (d : Draft) (raw : ByteArray) :
    (d.putRaw kind raw).signedRaws = d.signedRaws := by
  ext x
  refine mem_putRaw.trans ⟨fun hx => hx.resolve_right fun heq => ?_, Or.inl⟩
  exact h (congrArg Dep.kind heq).symm

theorem put_cases {d d' : Draft} {kind digest : String} {v : Value}
    (h : d.put id kind v = .ok (digest, d')) :
    ∃ raw, J v = .ok raw ∧ digest = id.sha raw ∧ d' = d.putRaw kind raw := by
  obtain ⟨raw, hraw, h⟩ := bind_eq_ok.mp h
  cases h
  exact ⟨raw, hraw, rfl, rfl⟩

theorem mark_cases {d d' : Draft} {kind status : String} (h : d.mark id kind status = .ok d') :
    ∃ tip, d'.state = { d.state with markersTip := tip } ∧ d'.messages = d.messages ∧
      d'.signedRaws = d.signedRaws := by
  obtain ⟨⟨tip, m⟩, hput, h⟩ := bind_eq_ok.mp h
  obtain ⟨raw, -, -, rfl⟩ := put_cases hput
  cases h
  refine ⟨some tip, ?_, putRaw_messages _ _ _, signedRaws_putRaw (by decide) _ _⟩
  rw [putRaw_state]

theorem block_cases {d d' : Draft} {v : Value} {bid vid : String} {b : Tendermint.Block}
    (h : d.block id v = .ok (bid, vid, b, d')) : id.block? v = some b ∧ d'.state = d.state ∧
      d'.messages = d.messages ∧ d'.signedRaws = d.signedRaws := by
  obtain ⟨b', hblock, h⟩ := bind_eq_ok.mp h
  obtain ⟨⟨_, m⟩, hput, h⟩ := bind_eq_ok.mp h
  obtain ⟨⟨_, m'⟩, hput', h⟩ := bind_eq_ok.mp h
  obtain ⟨raw, -, -, rfl⟩ := put_cases hput
  obtain ⟨raw', -, -, rfl⟩ := put_cases hput'
  cases h
  refine ⟨orRaise_eq_ok.mp hblock, by simp, by simp, ?_⟩
  rw [signedRaws_putRaw (by decide), signedRaws_putRaw (by decide)]

theorem receive_cases {d d' : Draft} {raw : ByteArray} (h : d.receive id raw = .ok d') :
    ∃ tip, d'.state = { d.state with inboxTip := tip } ∧
      d'.signedRaws = insert raw d.signedRaws := by
  obtain ⟨⟨tip, m⟩, hput, h⟩ := bind_eq_ok.mp h
  obtain ⟨raw', -, -, rfl⟩ := put_cases hput
  cases h
  refine ⟨some tip, by simp, ?_⟩
  refine (signedRaws_putRaw (by decide) _ raw').trans (signedRaws_putRaw_signed d raw)

/-- Every message enters the inbox. -/
theorem receiveAll_cases {d d' : Draft} (h : d.receiveAll id = .ok d') :
    ∃ raws, d.messages.mapM J = .ok raws ∧ (∃ tip, d'.state = { d.state with inboxTip := tip }) ∧
      d'.signedRaws = d.signedRaws ∪ {raw | raw ∈ raws} := by
  have hfold : ∀ {raws : List ByteArray} {d d' : Draft},
      raws.foldlM (receive id) d = .ok d' →
      (∃ tip, d'.state = { d.state with inboxTip := tip }) ∧
        d'.signedRaws = d.signedRaws ∪ {raw | raw ∈ raws} := by
    intro raws
    induction raws with
    | nil =>
      intro d d' h
      obtain rfl := foldlM_nil_eq_ok.mp h
      exact ⟨⟨d.state.inboxTip, rfl⟩, by simp⟩
    | cons raw raws ih =>
      intro d d' h
      obtain ⟨m, hm, hrest⟩ := foldlM_cons_eq_ok.mp h
      obtain ⟨tip, hstate, hraws⟩ := receive_cases hm
      obtain ⟨⟨tip', hstate'⟩, hraws'⟩ := ih hrest
      refine ⟨⟨tip', by rw [hstate', hstate]⟩, ?_⟩
      rw [hraws', hraws]
      ext x
      simp only [Set.mem_union, Set.mem_insert_iff, Set.mem_ofPred_eq, List.mem_cons]
      tauto
  obtain ⟨raws, hraws, h⟩ := bind_eq_ok.mp h
  obtain ⟨hstate, hall⟩ := hfold h
  refine ⟨raws, hraws, hstate, hall.trans ?_⟩
  ext x
  simp [List.mem_insertionSort]

end Draft

/-! ## Evidence -/

/-- A proposal that a payload answers. -/
structure Answers (id : Identity) (q : SignedMessage) (p : Payload) : Prop where
  signed : q.Signed id.crypto id.ctx
  step : q.payload.step = .propose (-1)
  height : q.payload.height = p.height
  round : q.payload.round = p.round

/-- The prevotes of a quorum for what a payload precommits. -/
structure Polka (id : Identity) (ms : List SignedMessage) (p : Payload) : Prop where
  signed : ∀ m ∈ ms, m.Signed id.crypto id.ctx
  step : ∀ m ∈ ms, m.payload.step = .prevote
  height : ∀ m ∈ ms, m.payload.height = p.height
  round : ∀ m ∈ ms, m.payload.round = p.round
  blockHash : ∀ m ∈ ms, m.payload.blockHash = p.blockHash
  count : 3 ≤ ms.length
  order : (ms.map fun m => m.payload.validatorId).Pairwise (· < ·)

theorem pyEq_of_exact {v b : Value} (hb : b.isExact = true) (h : v.pyEq b = true) :
    b.pyEq v = true := by
  cases b with
  | null =>
    cases v with
    | null => rfl
    | float f => cases f <;> simp [Value.pyEq, Value.number?] at h
    | _ => simp [Value.pyEq, Value.number?] at h
  | int n => exact (Value.pyEq_of_number rfl).mpr (Value.pyEq_int.mp h)
  | str s =>
    rw [Value.pyEq_str.mp h]
    exact Value.pyEq_self rfl
  | _ => cases hb

theorem objectItem_envelope (ctx : Context) (p : Payload) :
    objectItem (.dict (p.envelope ctx)) "payload" = .ok (p.toDict ctx) := by
  simp [objectItem, Value.item, Dict.index, Payload.envelope, Dict.get?_cons, Value.asDict]

theorem without_toDict (ctx : Context) (p : Payload) :
    without (p.toDict ctx) ["validator_id"] = p.commitment ctx := by
  cases hs : p.step <;>
    simp [without, Payload.toDict, Payload.commitment, Payload.head, Step.validRound, hs]

theorem commitment_envelope (ctx : Context) (p : Payload) :
    commitment (p.envelope ctx) = .ok (p.commitment ctx) := by
  rw [commitment, objectItem_envelope, ok_bind, without_toDict]

theorem slotKey_envelope (ctx : Context) (p : Payload) :
    slotKey (p.envelope ctx) = .ok ⟨p.height, p.round, p.step.name⟩ := by
  obtain ⟨-, hheight, hround, -, -, -, -, -, -, hstep, -⟩ := get_toDict ctx p
  rw [slotKey, objectItem_envelope, ok_bind, hheight, hround, hstep]

theorem set_step_commitment {ctx : Context} {p : Payload} (h : p.step = .precommit) :
    (p.commitment ctx).set "step" (.str "prevote") =
      ({ p with step := .prevote } : Payload).commitment ctx := by
  simp [Payload.commitment, Payload.head, Step.validRound, h, Step.name, Dict.set]

theorem exact_optionText (s : Option String) : (optionText s).isExact = true := by
  cases s <;> rfl

theorem optionText_injective : Function.Injective optionText := by
  intro a b h
  cases a <;> cases b <;> simp_all [optionText]

/-- A certificate that is compared with a precommit is one of prevotes for its value. -/
theorem polka_cases {p : Payload} {raw : ByteArray} {code : String} {pv : Dict}
    (hstep : p.step = .precommit) (h : polka id (p.envelope id.ctx) raw code = .ok pv) :
    ∃ ms, Polka id ms p ∧
      certifiedVotes pv = .ok (ms.map fun m => .dict (m.toDict id.ctx)) := by
  obtain ⟨pv', hproof, h⟩ := bind_eq_ok.mp h
  obtain ⟨c, hc, h⟩ := bind_eq_ok.mp h
  obtain ⟨⟨⟩, hequal, h⟩ := bind_eq_ok.mp h
  cases h
  rw [commitment_envelope] at hc
  cases hc
  rw [set_step_commitment hstep] at hequal
  have hequal := require_eq_ok.mp hequal
  obtain ⟨hparse, ms, t, hcertified, hstated⟩ :=
    (Verifier.proof_eq_ok rfl).mp hproof
  -- the certified commitment is the one that the precommit asks for
  obtain ⟨m₀, hm₀⟩ : ∃ m, m ∈ ms := List.exists_mem_of_length_pos (by have := hcertified.count; omega)
  obtain rfl := (hcertified.commitment m₀ hm₀).symm
  obtain ⟨s, hs⟩ := Verifier.dict_of_pyEq hstated
  have hordered : Ordered (pv.get "commitment") := ordered_get (parse_eq_ok.mp hparse).2.1
  rw [hs] at hstated hequal hordered
  have hsame : m₀.payload.commitment id.ctx =
      ({ p with step := .prevote } : Payload).commitment id.ctx := by
    refine Dict.eq_of_pyEq (Verifier.sorted_commitment _ _) (Verifier.sorted_commitment _ _)
      hordered.1 (Verifier.exact_commitment _ _) (Verifier.exact_commitment _ _) hstated ?_
    obtain ⟨hkeys, hitems⟩ := (Value.pyEq_sorted_iff hordered.1
      (Verifier.sorted_commitment _ _)).mp hequal
    refine (Value.pyEq_sorted_iff (Verifier.sorted_commitment _ _) hordered.1).mpr
      ⟨hkeys.symm, fun k hk => pyEq_of_exact ?_ (hitems k (hkeys ▸ hk))⟩
    exact Dict.isExact_get (Verifier.exact_commitment _ _) k
  have hfields : ∀ m ∈ ms, m.payload.step = .prevote ∧ m.payload.height = p.height ∧
      m.payload.round = p.round ∧ m.payload.blockHash = p.blockHash := by
    intro m hm
    have heq := (hcertified.commitment m hm).trans hsame
    obtain ⟨hstep₁, -, -, hheight₁, hround₁, -, -, -, -, hhash₁⟩ :=
      Verifier.get_commitment id.ctx m.payload
    obtain ⟨hstep₂, -, -, hheight₂, hround₂, -, -, -, -, hhash₂⟩ :=
      Verifier.get_commitment id.ctx { p with step := .prevote }
    rw [heq] at hstep₁ hheight₁ hround₁ hhash₁
    refine ⟨?_, Value.int.inj (hheight₁.symm.trans hheight₂),
      Value.int.inj (hround₁.symm.trans hround₂),
      optionText_injective (hhash₁.symm.trans hhash₂)⟩
    have hname := Value.str.inj (hstep₁.symm.trans hstep₂)
    cases hm' : m.payload.step <;> simp [hm', Step.name] at hname ⊢
  refine ⟨ms, ⟨hcertified.signed, fun m hm => (hfields m hm).1, fun m hm => (hfields m hm).2.1,
    fun m hm => (hfields m hm).2.2.1, fun m hm => (hfields m hm).2.2.2, hcertified.count.1,
    hcertified.order⟩, ?_⟩
  have hvotes : pv.get "votes" = .list (ms.map fun m => .dict (m.toDict id.ctx)) := hcertified.votes
  have hindex : pv.index "votes" = .ok (pv.get "votes") := by
    cases hget : pv.get? "votes" with
    | none => rw [Dict.get, hget] at hvotes; cases hvotes
    | some v => rw [Dict.index, Dict.get, hget]; rfl
  rw [certifiedVotes, hindex, ok_bind, hvotes]
  rfl

theorem objectItem_signed (ctx : Context) (m : SignedMessage) :
    objectItem (.dict (m.toDict ctx)) "envelope" = .ok (m.payload.envelope ctx) := by
  simp [objectItem, Value.item, Dict.index, SignedMessage.toDict, Dict.get?_cons, Value.asDict]

theorem get_validRound {ctx : Context} {p : Payload} {vr : Int} (h : p.step = .propose vr) :
    (p.toDict ctx).get "valid_round" = .int vr := by
  simp [Payload.toDict, Payload.head, Step.validRound, h, Dict.get, Dict.get?_cons]

/-- A proposal that is read is one that the payload answers. -/
theorem readProposal_cases {p : Payload} {raw : ByteArray} {prop pp : Dict}
    (h : readProposal id (p.envelope id.ctx) raw = .ok (prop, pp)) :
    ∃ q, Answers id q p ∧ prop = q.toDict id.ctx ∧ pp = q.payload.toDict id.ctx := by
  obtain ⟨prop', hsigned, h⟩ := bind_eq_ok.mp h
  obtain ⟨q, hq, rfl, hJ, hsize⟩ := signed_eq_ok.mp hsigned
  rw [objectItem_signed, ok_bind, objectItem_envelope, ok_bind] at h
  obtain ⟨⟨⟩, hstep, h⟩ := bind_eq_ok.mp h
  rw [commitment_envelope, ok_bind, commitment_envelope, ok_bind] at h
  obtain ⟨⟨⟩, hcontext, h⟩ := bind_eq_ok.mp h
  cases h
  obtain ⟨hpropose, hround⟩ := require_eq_ok.mp hstep
  have hstep : q.payload.step = .propose (-1) := by
    have hpropose := (Verifier.isText_propose q.payload).mp hpropose
    cases hs : q.payload.step with
    | propose vr =>
      rw [get_validRound hs] at hround
      have hnumber := Rat.intCast_injective (Option.some.inj (Value.pyEq_int.mp hround))
      rw [hnumber]
    | _ => rw [hs] at hpropose; cases hpropose
  obtain ⟨-, hitems⟩ := (Value.pyEq_sorted_iff
    (Verifier.sorted_without (Verifier.sorted_commitment id.ctx q.payload))
    (Verifier.sorted_without (Verifier.sorted_commitment id.ctx p))).mp (require_eq_ok.mp hcontext)
  obtain ⟨-, -, -, hheight₁, hround₁, -⟩ := Verifier.get_commitment id.ctx q.payload
  obtain ⟨-, -, -, hheight₂, hround₂, -⟩ := Verifier.get_commitment id.ctx p
  have hitem : ∀ {k : String} {a b : Int}, k ∉ ["block_hash", "step", "valid_round"] →
      k ∈ (q.payload.commitment id.ctx).map Prod.fst →
      (q.payload.commitment id.ctx).get k = .int a → (p.commitment id.ctx).get k = .int b →
      a = b := by
    intro k a b hk hkey ha hb
    have hkey' : k ∈ (without (q.payload.commitment id.ctx)
        ["block_hash", "step", "valid_round"]).map Prod.fst := by
      obtain ⟨e, he, rfl⟩ := List.mem_map.mp hkey
      exact List.mem_map_of_mem (List.mem_filter.mpr ⟨he, by simpa using hk⟩)
    have heq := hitems k hkey'
    rw [Verifier.get_without hk, Verifier.get_without (by simp at hk ⊢; tauto), ha, hb] at heq
    exact Rat.intCast_injective (Option.some.inj (Value.pyEq_int.mp heq))
  have hkeys : ∀ k ∈ ["block_height", "round"],
      k ∈ (q.payload.commitment id.ctx).map Prod.fst := by
    rw [Verifier.keys_commitment]
    cases q.payload.step.isPropose <;> decide
  exact ⟨q, ⟨⟨hq, raw, hJ, hsize⟩, hstep, hitem (by decide) (hkeys _ (by simp)) hheight₁ hheight₂,
    hitem (by decide) (hkeys _ (by simp)) hround₁ hround₂⟩, rfl, rfl⟩

/-! ## Reservations by their rule -/

/-- A value that is no longer locked for another. -/
def State.LockOk (s : State) (hash : Option String) : Prop :=
  s.locked.round = -1 ∨ s.locked.blockHash = hash

instance (s : State) (hash : Option String) : Decidable (s.LockOk hash) :=
  inferInstanceAs (Decidable (_ ∨ _))

/-- A reservation with the messages that it rests on, and the state that it leads to. -/
inductive PlanCase (id : Identity) (s : State) (p : Payload) :
    Rule → State → List SignedMessage → Prop
  | propose (b : Tendermint.Block) : s.started = false → s.phase = .propose →
      p.step = .propose (-1) → id.block? (optionText p.blockHash) = some b → allFlags b = true →
      PlanCase id s p .start { s with started := true } []
  | prevote (q : SignedMessage) (b : Tendermint.Block) : s.started = true → s.phase = .propose →
      p.step = .prevote → Answers id q p →
      id.block? (optionText q.payload.blockHash) = some b →
      p.blockHash =
        (if allFlags b = true ∧ s.LockOk q.payload.blockHash then q.payload.blockHash else none) →
      PlanCase id s p .l22 { s with phase := .prevote } [q]
  | polka (q : SignedMessage) (b : Tendermint.Block) (ms : List SignedMessage) (lock : Lock) :
      s.started = true → s.phase = .prevote → p.step = .precommit → Answers id q p →
      id.block? (optionText q.payload.blockHash) = some b → allFlags b = true →
      p.blockHash = q.payload.blockHash → Polka id ms p → lock.blockHash = some b.id →
      lock.round = s.round →
      PlanCase id s p .l36 { s with locked := lock, valid := lock, phase := .precommit } (q :: ms)
  | nilPolka (ms : List SignedMessage) : s.started = true → s.phase = .prevote →
      p.step = .precommit → p.blockHash = none → Polka id ms p →
      PlanCase id s p .l44 { s with phase := .precommit } ms

/-- The rule, the state and the messages of a reservation whose messages are still to enter the
inbox. -/
def Plans (id : Identity) (s : State) (p : Payload) (planned : Planned) : Prop :=
  ∃ s' ms tip, PlanCase id s p planned.rule s' ms ∧
    planned.draft.state = { s' with markersTip := tip } ∧
    planned.draft.messages = ms.map (fun m => .dict (m.toDict id.ctx)) ∧
    ∀ raw ∈ planned.draft.signedRaws, ∃ m ∈ ms, J (.dict (m.toDict id.ctx)) = .ok raw

theorem planPropose_cases {s : State} {p : Payload} {proposal pv : Option ByteArray}
    {planned : Planned} (hstep : isText ((p.toDict id.ctx).get "step") "propose")
    (h : planPropose id s (p.toDict id.ctx) proposal pv = .ok planned) :
    Plans id s p planned := by
  obtain ⟨⟨⟩, hguard, h⟩ := bind_eq_ok.mp h
  obtain ⟨⟨⟩, -, h⟩ := bind_eq_ok.mp h
  obtain ⟨⟨bid, vid, b, d⟩, hblock, h⟩ := bind_eq_ok.mp h
  obtain ⟨⟨⟩, hflags, h⟩ := bind_eq_ok.mp h
  cases h
  obtain ⟨hstarted, hphase, hround⟩ := require_eq_ok.mp hguard
  obtain ⟨hpinned, hstate, hmessages, hraws⟩ := Draft.block_cases hblock
  obtain ⟨-, -, -, -, -, -, -, -, hhash, -⟩ := get_toDict id.ctx p
  rw [hhash] at hpinned
  have hstep : p.step = .propose (-1) := by
    have hpropose := (Verifier.isText_propose p).mp hstep
    cases hs : p.step with
    | propose vr =>
      rw [get_validRound hs] at hround
      rw [Rat.intCast_injective (Option.some.inj (Value.pyEq_int.mp hround))]
    | _ => rw [hs] at hpropose; cases hpropose
  refine ⟨_, [], s.markersTip, .propose b hstarted hphase hstep hpinned
    (require_eq_ok.mp hflags), ?_, hmessages, fun raw hraw => ?_⟩
  · show { d.state with started := true } = _
    rw [hstate]
  · have hmem : raw ∈ d.signedRaws := hraw
    rw [hraws] at hmem
    cases hmem

theorem planNilPrecommit_cases {s : State} {p : Payload} {proposal pv : Option ByteArray}
    {planned : Planned} (hstarted : s.started = true) (hstep : p.step = .precommit)
    (hhash : p.blockHash = none)
    (h : planNilPrecommit id s (p.envelope id.ctx) proposal pv = .ok planned) :
    Plans id s p planned := by
  obtain ⟨⟨⟩, hguard, h⟩ := bind_eq_ok.mp h
  obtain ⟨pvRaw, -, h⟩ := bind_eq_ok.mp h
  obtain ⟨obj, hpolka, h⟩ := bind_eq_ok.mp h
  obtain ⟨⟨_, d⟩, hput, h⟩ := bind_eq_ok.mp h
  obtain ⟨votes, hvotes, h⟩ := bind_eq_ok.mp h
  obtain ⟨d', hmark, h⟩ := bind_eq_ok.mp h
  cases h
  obtain ⟨ms, hms, hcertified⟩ := polka_cases hstep hpolka
  obtain rfl := Except.ok.inj (hvotes.symm.trans hcertified)
  obtain ⟨raw, -, -, rfl⟩ := Draft.put_cases hput
  obtain ⟨tip, hstate, hmessages, hraws⟩ := Draft.mark_cases hmark
  refine ⟨_, ms, tip, .nilPolka ms hstarted (require_eq_ok.mp hguard).1 hstep hhash hms, ?_,
    hmessages, fun x hx => ?_⟩
  · rw [hstate, Draft.putRaw_state]
  · have hmem : x ∈ (Draft.putRaw { state := s } "pv" raw).signedRaws := by
      rw [hraws] at hx
      exact hx
    rw [Draft.signedRaws_putRaw (by decide)] at hmem
    cases hmem

/-- A draft behind the proposal and its block. -/
structure Proposed (id : Identity) (s : State) (q : SignedMessage) (d : Draft) : Prop where
  state : d.state = s
  messages : d.messages = [.dict (q.toDict id.ctx)]
  raws : ∀ raw ∈ d.signedRaws, J (.dict (q.toDict id.ctx)) = .ok raw

theorem planPrevote_cases {s : State} {p : Payload} {q : SignedMessage} {pv : Option ByteArray}
    {bid vid : String} {b : Tendermint.Block} {d : Draft} {planned : Planned}
    (hstarted : s.started = true) (hstep : p.step = .prevote) (hq : Answers id q p)
    (hblock : id.block? (optionText q.payload.blockHash) = some b) (hd : Proposed id s q d)
    (h : planPrevote id s (p.toDict id.ctx) (q.payload.toDict id.ctx) pv bid vid b d =
      .ok planned) : Plans id s p planned := by
  obtain ⟨⟨⟩, hguard, h⟩ := bind_eq_ok.mp h
  obtain ⟨⟨⟩, hvalue, h⟩ := bind_eq_ok.mp h
  obtain ⟨d', hmark, h⟩ := bind_eq_ok.mp h
  cases h
  obtain ⟨tip, hstate, hmessages, hraws⟩ := Draft.mark_cases hmark
  obtain ⟨-, -, -, -, -, -, -, -, hhash, -⟩ := get_toDict id.ctx p
  obtain ⟨-, -, -, -, -, -, -, -, hhash', -⟩ := get_toDict id.ctx q.payload
  have hlock : (s.locked.round = -1 ∨ (optionText s.locked.blockHash).pyEq
      (optionText q.payload.blockHash) = true) ↔ s.LockOk q.payload.blockHash := by
    refine or_congr Iff.rfl ⟨fun heq => optionText_injective ?_, fun heq => ?_⟩
    · exact Value.eq_of_pyEq (exact_optionText _) (exact_optionText _) heq
        (Value.pyEq_self (exact_optionText _))
    · rw [heq]
      exact Value.pyEq_self (exact_optionText _)
  have hvalue : p.blockHash =
      if allFlags b = true ∧ s.LockOk q.payload.blockHash then q.payload.blockHash else none := by
    have hvalue := require_eq_ok.mp hvalue
    rw [hhash, hhash'] at hvalue
    refine optionText_injective (Value.eq_of_pyEq (exact_optionText _) (exact_optionText _) hvalue ?_)
    rw [if_congr (and_congr Iff.rfl hlock) rfl rfl]
    split_ifs
    · exact Value.pyEq_self (exact_optionText _)
    · rfl
  refine ⟨_, [q], tip, .prevote q b hstarted (require_eq_ok.mp hguard).1 hstep hq hblock hvalue,
    ?_, hmessages.trans hd.messages, fun raw hraw => ⟨q, List.mem_singleton_self q, ?_⟩⟩
  · rw [hstate]
    simp only [hd.state]
  · rw [hraws] at hraw
    exact hd.raws raw hraw

theorem planPrecommit_cases {s : State} {p : Payload} {q : SignedMessage} {pv : Option ByteArray}
    {pid bid vid : String} {b : Tendermint.Block} {d : Draft} {planned : Planned}
    (hstarted : s.started = true) (hstep : p.step = .precommit) (hq : Answers id q p)
    (hblock : id.block? (optionText q.payload.blockHash) = some b) (hd : Proposed id s q d)
    (h : planPrecommit id s (p.envelope id.ctx) (p.toDict id.ctx) (q.payload.toDict id.ctx) pid pv
      bid vid b d = .ok planned) : Plans id s p planned := by
  obtain ⟨⟨⟩, hguard, h⟩ := bind_eq_ok.mp h
  obtain ⟨pvRaw, -, h⟩ := bind_eq_ok.mp h
  obtain ⟨obj, hpolka, h⟩ := bind_eq_ok.mp h
  obtain ⟨⟨pvid, d₁⟩, hput, h⟩ := bind_eq_ok.mp h
  obtain ⟨votes, hvotes, h⟩ := bind_eq_ok.mp h
  obtain ⟨d₂, hmark, h⟩ := bind_eq_ok.mp h
  obtain ⟨d₃, hmark', h⟩ := bind_eq_ok.mp h
  cases h
  obtain ⟨ms, hms, hcertified⟩ := polka_cases hstep hpolka
  obtain rfl := Except.ok.inj (hvotes.symm.trans hcertified)
  obtain ⟨raw, -, -, rfl⟩ := Draft.put_cases hput
  obtain ⟨_, hstate, hmessages, hraws⟩ := Draft.mark_cases hmark
  obtain ⟨tip, hstate', hmessages', hraws'⟩ := Draft.mark_cases hmark'
  obtain ⟨hphase, hflags, hvalue⟩ := require_eq_ok.mp hguard
  obtain ⟨-, -, -, -, -, -, -, -, hhash, -⟩ := get_toDict id.ctx p
  obtain ⟨-, -, -, -, -, -, -, -, hhash', -⟩ := get_toDict id.ctx q.payload
  rw [hhash, hhash'] at hvalue
  have hvalue : p.blockHash = q.payload.blockHash := optionText_injective
    (Value.eq_of_pyEq (exact_optionText _) (exact_optionText _) hvalue
      (Value.pyEq_self (exact_optionText _)))
  refine ⟨_, q :: ms, tip, .polka q b ms { blockHash := some b.id, round := s.round
                                           proposalId := some pid, prevoteCertificateId := some pvid }
    hstarted hphase hstep hq hblock hflags hvalue hms rfl rfl, ?_, ?_, fun x hx => ?_⟩
  · rw [hstate', hstate]
    simp only [Draft.putRaw_state, hd.state]
  · rw [hmessages', hmessages]
    simp only [Draft.putRaw_messages, hd.messages, List.singleton_append, List.map_cons]
  · have hmem : x ∈ (d.putRaw "pv" raw).signedRaws := by
      rw [hraws', hraws] at hx
      exact hx
    rw [Draft.signedRaws_putRaw (by decide)] at hmem
    exact ⟨q, List.mem_cons_self, hd.raws x hmem⟩

theorem planOnProposal_cases {s : State} {p : Payload} {proposal pv : Option ByteArray}
    {planned : Planned} (hstarted : s.started = true) (hstep : ∀ vr, p.step ≠ .propose vr)
    (h : planOnProposal id s (p.envelope id.ctx) (p.toDict id.ctx) proposal pv = .ok planned) :
    Plans id s p planned := by
  obtain ⟨raw, -, h⟩ := bind_eq_ok.mp h
  obtain ⟨⟨prop, pp⟩, hread, h⟩ := bind_eq_ok.mp h
  obtain ⟨q, hq, rfl, rfl⟩ := readProposal_cases hread
  obtain ⟨⟨pid, d⟩, hput, h⟩ := bind_eq_ok.mp h
  obtain ⟨raw', hJ, -, rfl⟩ := Draft.put_cases hput
  obtain ⟨⟨bid, vid, b, d'⟩, hblock, h⟩ := bind_eq_ok.mp h
  obtain ⟨hpinned, hstate, hmessages, hraws⟩ := Draft.block_cases hblock
  obtain ⟨-, -, -, -, -, -, -, -, hhash, -⟩ := get_toDict id.ctx q.payload
  rw [hhash] at hpinned
  obtain ⟨-, -, -, -, -, -, -, -, -, hname, -⟩ := get_toDict id.ctx p
  have hd : Proposed id s q d' := by
    refine ⟨hstate.trans (Draft.putRaw_state _ _ _), hmessages, fun x hx => ?_⟩
    rw [hraws] at hx
    have hmem : x ∈ (Draft.putRaw { state := s } "signed" raw').signedRaws := hx
    rw [Draft.signedRaws_putRaw_signed] at hmem
    obtain rfl | hx := hmem
    · exact hJ
    · cases hx
  dsimp only at h
  rw [hname] at h
  cases hs : p.step with
  | propose vr => exact (hstep vr hs).elim
  | prevote =>
    rw [if_pos (by rw [hs]; exact isText_str _)] at h
    exact planPrevote_cases hstarted hs hq hpinned hd h
  | precommit =>
    rw [if_neg (by rw [hs, isText_iff]; decide)] at h
    exact planPrecommit_cases hstarted hs hq hpinned hd h

/-- What `plan` has checked, whatever the rule. -/
structure Planning (id : Identity) (s : State) (p : Payload) (planned : Planned) : Prop where
  signer : p.validatorId = id.validatorId
  pending : s.pendingSlot = none
  fault : s.fault = none
  height : p.height = s.height
  round : p.round = s.round
  parent : p.parentHash = s.finalizedHash
  /-- The state behind the rule, with new records and the reservation. -/
  rule : ∃ s' ms, PlanCase id s p planned.rule s' ms ∧
    (∃ tip tip', planned.draft.state = { s' with
      markersTip := tip, inboxTip := tip', pendingSlot := some ⟨p.height, p.round, p.step.name⟩ }) ∧
    ∀ raw, ⟨"signed", raw⟩ ∈ planned.draft.deps ↔
      ∃ m ∈ ms, J (.dict (m.toDict id.ctx)) = .ok raw

/-- A reservation is one of four rules, and it records its messages. -/
theorem plan_cases {s : State} {p : Payload} {proposal pv : Option ByteArray} {planned : Planned}
    (h : plan id s (p.envelope id.ctx) proposal pv = .ok planned) : Planning id s p planned := by
  unfold plan at h
  rw [objectItem_envelope, ok_bind, slotKey_envelope, ok_bind] at h
  obtain ⟨⟨⟩, hsigner, h⟩ := bind_eq_ok.mp h
  obtain ⟨⟨⟩, hfree, h⟩ := bind_eq_ok.mp h
  obtain ⟨⟨⟩, hslot, h⟩ := bind_eq_ok.mp h
  obtain ⟨⟨⟩, hparent, h⟩ := bind_eq_ok.mp h
  obtain ⟨planned', hplanned, h⟩ := bind_eq_ok.mp h
  obtain ⟨d, hreceive, h⟩ := bind_eq_ok.mp h
  cases h
  obtain ⟨-, -, -, -, hparentHash, -, -, hvalidator, hhash, hname, -⟩ := get_toDict id.ctx p
  have hplans : Plans id s p planned' := by
    rw [hname, hhash] at hplanned
    split at hplanned
    case isTrue hpropose => exact planPropose_cases (by rw [hname]; exact hpropose) hplanned
    case isFalse hpropose =>
      obtain ⟨⟨⟩, hstarted, hplanned⟩ := bind_eq_ok.mp hplanned
      have hstarted := require_eq_ok.mp hstarted
      have hstep : ∀ vr, p.step ≠ .propose vr := by
        intro vr hs
        rw [hs] at hpropose
        exact hpropose (isText_str _)
      split at hplanned
      case isFalse hnil => exact planOnProposal_cases hstarted hstep hplanned
      case isTrue hnil =>
        refine planNilPrecommit_cases hstarted ?_ (Verifier.optionText_eq_null.mp hnil.2) hplanned
        cases hs : p.step with
        | precommit => rfl
        | propose vr => exact (hstep vr hs).elim
        | prevote => rw [hs, isText_iff] at hnil; exact absurd hnil.1 (by decide)
  obtain ⟨s', ms, tip, hcase, hstate, hmessages, hrecorded⟩ := hplans
  obtain ⟨raws, hraws, ⟨tip', hstate'⟩, hall⟩ := Draft.receiveAll_cases hreceive
  obtain ⟨hheight, -, hround, -⟩ := require_eq_ok.mp hslot
  rw [hparentHash] at hparent
  rw [hvalidator] at hsigner
  refine ⟨Value.str.inj (isText_iff.mp (require_eq_ok.mp hsigner)), (require_eq_ok.mp hfree).1,
    (require_eq_ok.mp hfree).2, hheight, hround,
    Value.str.inj (isText_iff.mp (require_eq_ok.mp hparent).1), s', ms, hcase,
    ⟨tip, tip', by rw [hstate', hstate]⟩, fun raw => ?_⟩
  have hmem : (⟨"signed", raw⟩ : Dep) ∈ d.deps ↔ raw ∈ planned'.draft.signedRaws ∨ raw ∈ raws := by
    show raw ∈ d.signedRaws ↔ _
    rw [hall]
    exact Iff.rfl
  rw [hmem]
  rw [hmessages] at hraws
  constructor
  · rintro (hraw | hraw)
    · exact hrecorded raw hraw
    · obtain ⟨v, hv, hJ⟩ := mapM_eq_ok_mem hraws raw hraw
      obtain ⟨m, hm, rfl⟩ := List.mem_map.mp hv
      exact ⟨m, hm, hJ⟩
  · rintro ⟨m, hm, hJ⟩
    right
    obtain ⟨raw', hraw', hJ'⟩ :=
      exists_right_of_forall₂ (forall₂_of_mapM hraws) (List.mem_map_of_mem hm)
    rwa [Except.ok.inj (hJ.symm.trans hJ')]

end Bft

end ZoidbergChain
