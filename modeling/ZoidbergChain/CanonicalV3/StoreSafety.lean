import ZoidbergChain.CanonicalV3.Construction
import ZoidbergChain.CanonicalV3.FinalityQuorum
import ZoidbergChain.CanonicalV3.StoreRuns

/-!
# Guarantees of a store

- `finality_irrevocable`: over every run, the selected chain is the lineage of the tip, the
  evidence stays on it, and a finalized block stays finalized.
- `integrity_of_run`, `repair`: a store that a run reaches passes its integrity scan, and its
  derived tables come back from the others.
- `lookups_exact`: the look-ups find the blocks that they name, and no others.
- `selectChain_exact`: the tips that can be selected.
-/

namespace ZoidbergChain

open Python Consensus

namespace CanonicalV3

variable {crypto : Crypto} {store : StoreConfig} {verdict : ByteArray → Outcome}
  {workers : Workers} {db db' : Tables}

/-! ## A store of one block -/

theorem anchorHeight_sample : (0 : Int) ≤ 0 ∧ (0 : Int) ≤ maxUint := by decide

def sampleStore : StoreConfig where
  ctx := sampleContext
  anchorHeight := 0
  anchorHash := sampleContext.genesisHash
  anchorHeight_valid := anchorHeight_sample
  anchorHash_valid := sampleContext.hashes_valid _ (List.mem_cons_self)
  genesis := fun _ => rfl

/-- The order of keys in a descriptor does not matter. -/
theorem reconstruct_sortKeys {v : Value} {bytes : List UInt8} {raw : ByteArray}
    (hvalid : validateDescriptor v = .ok bytes) (hraw : canonical v = .ok raw) :
    reconstruct crypto workers (Json.sortKeys v) = reconstruct crypto workers v := by
  have hchecked : (do let _ ← validateDescriptor v; canonical v) = (.ok raw : Py ByteArray) := by
    rw [hvalid, ok_bind, hraw]
  have hchecked' : (do let _ ← validateDescriptor (Json.sortKeys v); canonical (Json.sortKeys v)) =
      (.ok raw : Py ByteArray) := by
    rw [validateDescriptor_sortKeys.mpr hvalid, ok_bind, canonical_sortKeys.mpr hraw]
  rw [reconstruct, reconstruct, hchecked, hchecked']
  simp only [intAt_sortKeys, textAt_sortKeys]

theorem reconstruct_sample :
    (reconstruct sampleCrypto sampleWorkers (Json.sortKeys sampleMedia)).status = .valid := by
  obtain ⟨hwrites, ⟨bytes, hvalid⟩, -⟩ := sampleBlock.media_spec
  have hvalid : validateDescriptor sampleMedia = .ok bytes := hvalid
  have hraw : canonical sampleMedia = .ok (encodeUtf8 (canonicalText sampleMedia)) :=
    hwrites.canonical
  have hchecked : (do let _ ← validateDescriptor sampleMedia; canonical sampleMedia) =
      (.ok (encodeUtf8 (canonicalText sampleMedia)) : Py ByteArray) := by
    rw [hvalid, ok_bind, hraw]
  have hlines : canonicalOriginal sampleOriginal = .ok () := by decide
  have hdecode : ∀ raw, sampleWorkers.decode raw =
      { status := .valid, original := some sampleOriginal } := fun _ => rfl
  have hsize : sampleMedia.intAt "original_size" = sampleOriginal.length := rfl
  have hsha : sampleMedia.textAt "original_sha256" =
      sampleCrypto.sha256Hex sampleOriginal.toByteArray := rfl
  have hmime : sampleMedia.textAt "mime_type" = "text/plain" := rfl
  rw [reconstruct_sortKeys hvalid hraw, reconstruct, hchecked]
  simp only [hdecode, hsize, hsha, hmime, hlines, ne_eq, not_true_eq_false, or_self, if_false,
    if_true]

/-- The block of five reviewers, its bytes, and what a store derives from them. -/
theorem verify_sample : ∃ raw,
    verify sampleCrypto sampleStore sampleWorkers raw false =
      .ok (recordOf sampleCrypto sampleStore raw) ∧
    (derived (recordOf sampleCrypto sampleStore raw)).height = 1 ∧
    (derived (recordOf sampleCrypto sampleStore raw)).previousHash = sampleContext.genesisHash := by
  obtain ⟨raw, -, -, -, -, -, hraw, -⟩ := encodeRecord_of_valid
    (validatePayload_issued sampleBlock) sampleBlock.writes_payload.unique
  obtain ⟨preimage, -, hparse⟩ :=
    parseRecord_of_encode sampleBlock.writes_payload.unique hraw
  have hrecord : recordOf sampleCrypto sampleStore raw = Json.sortKeys
      (blockRecord sampleCrypto (envelope sampleBlock.payload "block" sampleContext) preimage) := by
    rw [recordOf, show sampleStore.ctx = sampleContext from rfl, hparse]
  have hpayload : recordPayload (recordOf sampleCrypto sampleStore raw) =
      Json.sortKeys sampleBlock.payload := by
    rw [hrecord, recordPayload, field_sortKeys, field_sortKeys]
    rfl
  have hmedia : (recordPayload (recordOf sampleCrypto sampleStore raw)).field "media" =
      Json.sortKeys sampleMedia := by
    rw [hpayload, field_sortKeys]
    rfl
  refine ⟨raw, ?_, ?_, ?_⟩
  · rw [verify, show sampleStore.ctx = sampleContext from rfl, hparse, ← hrecord]
    dsimp only
    rw [hmedia, reconstruct_sample]
  · rw [derived, hpayload, intAt_sortKeys]
    rfl
  · rw [derived, hpayload, textAt_sortKeys]
    rfl

/-- A store with the block of five reviewers. -/
theorem run_sample : ∃ raw,
    Run sampleCrypto sampleStore sampleWorkers.decode {}
      (withBlock sampleCrypto sampleStore {} raw) ∧
    insert sampleCrypto sampleStore sampleWorkers {} raw =
      .ok (true, withBlock sampleCrypto sampleStore {} raw) ∧
    Available sampleCrypto sampleStore sampleWorkers
      (withBlock sampleCrypto sampleStore {} raw) ∧
    links sampleCrypto sampleStore (withBlock sampleCrypto sampleStore {} raw)
      (recordHash (recordOf sampleCrypto sampleStore raw)) =
        some (1, sampleContext.genesisHash) := by
  obtain ⟨raw, hverify, hheight, hprevious⟩ := verify_sample
  have hinsert : insert sampleCrypto sampleStore sampleWorkers {} raw =
      .ok (true, withBlock sampleCrypto sampleStore {} raw) := by
    rw [insert, hverify]
    rfl
  have hfaithful : Faithful sampleWorkers.decode sampleWorkers := fun _ => Or.inl rfl
  have hmedia := (verified_of_verify hfaithful hverify).2.media
  refine ⟨raw, .single (.commits (.insert raw) sampleWorkers hfaithful ?_), hinsert, ?_, ?_⟩
  · rw [Operation.apply, hinsert]
    rfl
  · intro e he
    obtain rfl := List.mem_singleton.mp he
    intro hlocal
    have hsame : reconstruct sampleCrypto (ideal sampleWorkers.decode) =
        reconstruct sampleCrypto sampleWorkers := rfl
    rw [hsame, hlocal] at hmedia
    cases hmedia
  · simp [links, withBlock, Table.get?_cons, hheight, hprevious]

theorem faithful_sample : Faithful sampleWorkers.decode sampleWorkers := fun _ => Or.inl rfl

/-! ## Selecting and finalizing -/

/-- Blocks are kept under SHA-256 digests. -/
theorem Verified.hex {hash : String} {raw : ByteArray}
    (h : Verified crypto store verdict hash raw) : h64 (.str hash) = .ok hash := by
  obtain ⟨payload, preimage, -, -, hrecord, -⟩ := parseRecord_eq h.parsed
  have htext : hash = crypto.sha256Hex preimage := by
    rw [← h.keyed, hrecord]
    rfl
  rw [htext]
  exact h64_isHex64 (crypto.sha256Hex_isHex64 preimage)

theorem checkTip_eq_ok {tip : Option String} {u : Unit} :
    checkTip tip = .ok u ↔ ∀ t ∈ tip, isHexAfter "" 64 t = true := by
  cases tip with
  | none => simp [checkTip]
  | some t =>
    rw [checkTip, map_eq_ok]
    simp only [lift_eq_ok, h64, pattern_eq_ok, Value.str.injEq, Option.mem_def, Option.some.injEq,
      forall_eq', and_true]
    exact ⟨fun ⟨_, rfl, hhex⟩ => hhex, fun hhex => ⟨t, rfl, hhex⟩⟩

theorem Sound.selectChain_iff (h : Sound crypto store verdict db)
    (hworkers : Faithful verdict workers) (havailable : Available crypto store workers db)
    {tip expectedTip : Option String} :
    selectChain crypto store workers db tip expectedTip = .ok db' ↔
      (∀ t ∈ tip, isHexAfter "" 64 t = true) ∧ expectedTip = db.selectedTip ∧
      ∃ chain, SelectedChain crypto store db tip chain ∧
        (∀ row ∈ db.finality, evidenceOf crypto store row ∈ chain) ∧
        db' = { db with canonicalChain := chain, selectedTip := tip } := by
  constructor
  · intro hselect
    obtain ⟨⟨⟩, hhex, -⟩ := stored_bind_eq_ok.mp hselect
    obtain ⟨chain, hchain, hexpected, hkept, rfl⟩ := selectChain_cases h hworkers hselect
    exact ⟨checkTip_eq_ok.mp hhex, hexpected, chain, hchain, hkept, rfl⟩
  · rintro ⟨hhex, rfl, chain, hchain, hkept, rfl⟩
    have hold := (h.selected_reads hworkers).ok havailable
    have hnew := (lineage_reads hworkers h.blocks true (fun _ => h.indexed) hchain).ok havailable
    have hon : ∀ e ∈ db.finality.map (evidenceOf crypto store), e ∈ chain := by
      intro e he
      obtain ⟨row, hrow, rfl⟩ := List.mem_map.mp he
      exact hkept row hrow
    simp only [selectChain, stored_bind_eq_ok, check_eq_ok, hold, hnew, proofs_eq h.evidence]
    exact ⟨(), checkTip_eq_ok.mpr hhex, _, rfl, (), h.selected.getLast?, _, rfl, _, rfl, (), hon,
      rfl⟩

theorem trustBytes_writes {trusted equivocators : List String}
    (htrusted : ∀ a ∈ trusted, wallet (.str a) = .ok a)
    (hequivocators : ∀ a ∈ equivocators, wallet (.str a) = .ok a) {n k : Nat}
    (hcount : trusted.length ≤ n) (hcount' : equivocators.length ≤ k) (hn : 0 < n) (hk : 0 < k) :
    ∃ trust, trustBytes trusted equivocators = .ok trust ∧
      trust.size ≤ 45 * n + 45 * k + 40 := by
  have hset : Writes 1 (n * (44 + 1) + 1) (.list (trusted.map .str)) := by
    refine writes_list n hn ?_ (by decide) fun x hx => ?_
    · rw [List.length_map]
      exact hcount
    · obtain ⟨a, ha, rfl⟩ := List.mem_map.mp hx
      exact writes_wallet (htrusted a ha)
  have hset' : Writes 1 (k * (44 + 1) + 1) (.list ((Bft.sortedSet equivocators).map .str)) := by
    refine writes_list k hk ?_ (by decide) fun x hx => ?_
    · rw [List.length_map, Bft.sortedSet, List.length_insertionSort]
      exact (List.dedup_sublist _).length_le.trans hcount'
    · obtain ⟨a, ha, rfl⟩ := List.mem_map.mp hx
      exact writes_wallet (hequivocators a (mem_sortedSet.mp ha))
  have hfields : FieldsWrite 1 [("validators", .list (trusted.map .str)),
      ("equivocators", .list ((Bft.sortedSet equivocators).map .str))]
      [("validators", n * (44 + 1) + 1), ("equivocators", k * (44 + 1) + 1)] := by
    simp only [FieldsWrite, List.forall₂_cons, List.forall₂_nil_left_iff, true_and, and_true]
    exact ⟨hset, hset'⟩
  have hkeys : areKeys [("validators", n * (44 + 1) + 1), ("equivocators", k * (44 + 1) + 1)] =
      true := by
    show areKeys [("validators", 0), ("equivocators", 0)] = true
    decide
  have hwrites := writes_dict hfields hkeys (by decide)
  refine ⟨_, hwrites.canonical, ?_⟩
  rw [size_canonical hwrites.canonical]
  refine hwrites.width.trans ?_
  have hlengths : "validators".length = 10 ∧ "equivocators".length = 12 := by decide
  simp only [objectWidth, List.map_cons, List.map_nil, List.sum_cons, List.sum_nil,
    List.length_cons, List.length_nil, hlengths]
  omega

theorem field_proof (c : Commitment crypto store.ctx) :
    (Json.sortKeys c.proof).field "block_height" = .int c.height ∧
      (Json.sortKeys c.proof).field "block_hash" = .str c.hash := by
  rw [field_sortKeys, field_sortKeys]
  exact ⟨rfl, rfl⟩

theorem item_of_field {v w : Value} {key : String} (hclosed : ∃ d, v = .dict d)
    (hfield : v.field key = w) (hne : w ≠ .null) : v.item key = .ok w := by
  obtain ⟨d, rfl⟩ := hclosed
  have hget : Dict.get d key = w := hfield
  rw [Dict.get_eq] at hget
  cases hlookup : Dict.get? d key with
  | none =>
    rw [hlookup] at hget
    exact absurd hget.symm hne
  | some u =>
    rw [hlookup] at hget
    obtain rfl : u = w := hget
    rw [Value.item, Dict.index, hlookup]

/-- Below its evidence, a chain is final. -/
theorem isFinalized_below (h : Sound crypto store verdict db)
    (hworkers : Faithful verdict workers) (havailable : Available crypto store workers db)
    {row : FinalityRow} (hrow : row ∈ db.finality) {e : Int × String}
    (he : e ∈ db.canonicalChain) (hle : e.1 ≤ (evidenceOf crypto store row).1) :
    isFinalized crypto store workers db e.2 = .ok true := by
  classical
  obtain ⟨raw, hget, -⟩ := h.selected.stored he
  have hhex := (h.blocks.verified _ (Table.mem_of_get? hget)).hex
  have hreads := h.isFinalized_reads hworkers (pattern_eq_ok.mp hhex).2
  have hfinal : IsFinal crypto store db e.2 := ⟨e, he, rfl, row, hrow, hle⟩
  rw [decide_eq_true hfinal] at hreads
  exact hreads.ok havailable

theorem find?_evidence (hash : String) :
    db.finality.find? (·.hash = hash) = none ↔ hash ∉ db.finality.map FinalityRow.hash := by
  rw [List.find?_eq_none]
  simp

theorem Sound.finalize_iff (h : Sound crypto store verdict db)
    (hworkers : Faithful verdict workers) (havailable : Available crypto store workers db)
    {c : Commitment crypto store.ctx} {trust : ByteArray}
    (htrust : trustBytes c.trusted c.equivocators = .ok trust) (hsize : trust.size ≤ 32768) :
    finalize crypto store workers db c.bytes c.trusted c.equivocators = .ok (true, db') ↔
      ((c.height, c.hash) ∈ db.canonicalChain ∧ c.hash ∉ db.finality.map FinalityRow.hash) ∧
        db' = { db with finality := db.finality ++ [⟨c.hash, c.bytes, trust⟩] } := by
  obtain ⟨hheight, hhash⟩ := field_proof c
  have hdict : ∃ d, Json.sortKeys c.proof = .dict d := ⟨_, rfl⟩
  have htext : (Json.sortKeys c.proof).textAt "block_hash" = c.hash := by
    rw [Value.textAt, hhash]
  have hint : (Json.sortKeys c.proof).intAt "block_height" = c.height := by
    rw [Value.intAt, hheight]
  have hproof := lift_eq_ok.mpr (parse_commitment c)
  have hheightItem := lift_eq_ok.mpr (item_of_field hdict hheight (by simp))
  have hhashItem := lift_eq_ok.mpr (item_of_field hdict hhash (by simp))
  have hvalid := lift_eq_ok.mpr (validateFinalityProof_sortKeys.mpr (validateProof_commitment c))
  have hkept := lift_eq_ok.mpr htrust
  have hchain := (h.selected_reads hworkers).ok havailable
  rw [finalize, hproof, ← find?_evidence]
  simp only [stored_ok_bind, hheightItem, hhashItem, hvalid, hkept, hchain, hint, htext,
    stored_bind_eq_ok, check_eq_ok]
  cases db.finality.find? (·.hash = c.hash) with
  | some existing => simp [stored_bind_eq_ok]
  | none =>
    simp only [stored_bind_eq_ok, check_eq_ok, Except.ok.injEq, Prod.mk.injEq, true_and, and_true,
      hsize, exists_const, eq_comm (a := db')]

/-- What a quorum has finalized is final, with everything below it. -/
theorem Sound.isFinalized_finalize (h : Sound crypto store verdict db)
    (hworkers : Faithful verdict workers) (havailable : Available crypto store workers db)
    {c : Commitment crypto store.ctx} {trust : ByteArray}
    (htrust : trustBytes c.trusted c.equivocators = .ok trust) (hsize : trust.size ≤ 32768)
    (hfinalize : finalize crypto store workers db c.bytes c.trusted c.equivocators =
      .ok (true, db')) {e : Int × String} (he : e ∈ db.canonicalChain) (hle : e.1 ≤ c.height) :
    isFinalized crypto store workers db' e.2 = .ok true := by
  obtain ⟨⟨hselected, hnew⟩, rfl⟩ := (h.finalize_iff hworkers havailable htrust hsize).mp hfinalize
  have hitem : (Json.sortKeys c.proof).item "block_height" = .ok (.int c.height) :=
    item_of_field ⟨_, rfl⟩ (field_proof c).1 nofun
  obtain ⟨hvalid, hevidence⟩ := validEvidence_of_proof (parse_commitment c) hitem
    (validateFinalityProof_sortKeys.mpr (validateProof_commitment c)) htrust hsize
  have hkeeps := sound_finalize h hvalid (hevidence ▸ hselected) hnew
  exact isFinalized_below hkeeps hworkers havailable
    (List.mem_append_right _ (List.mem_singleton_self _)) he (by rw [hevidence]; exact hle)

/-- The trust context of a quorum fits its column, for up to 599 equivocators. -/
theorem trustBytes_commitment (c : Commitment crypto store.ctx)
    (hcount : c.equivocators.length ≤ 599) :
    ∃ trust, trustBytes c.trusted c.equivocators = .ok trust ∧ trust.size ≤ 32768 := by
  obtain ⟨trust, htrust, hsize⟩ := trustBytes_writes c.trusted_valid c.equivocators_valid
    c.trusted_count.2 hcount (by decide) (by decide)
  exact ⟨trust, htrust, hsize.trans (by decide)⟩

/-- The height that a stored block states. -/
def heightOf (crypto : Crypto) (store : StoreConfig) (db : Tables) (hash : String) : Option Int :=
  (links crypto store db hash).map Prod.fst

theorem heightOf_chain (h : Sound crypto store verdict db) {e : Int × String}
    (he : e ∈ db.canonicalChain) : heightOf crypto store db e.2 = some e.1 := by
  obtain ⟨raw, hget, hheight⟩ := h.selected.stored he
  rw [heightOf, links, hget, Option.map_some, Option.map_some, hheight]

/-- A call that returns has been given the text of a hash. -/
theorem hash_of_isFinalized {hash : String} {b : Bool}
    (h : isFinalized crypto store workers db hash = .ok b) : isHexAfter "" 64 hash = true := by
  obtain ⟨s, hs, -⟩ := stored_bind_eq_ok.mp h
  obtain ⟨heq, hhex⟩ := pattern_eq_ok.mp (lift_eq_ok.mp hs)
  exact Value.str.inj heq ▸ hhex

theorem isFinal_of_isFinalized (h : Sound crypto store verdict db)
    (hworkers : Faithful verdict workers) {hash : String}
    (hfinal : isFinalized crypto store workers db hash = .ok true) :
    IsFinal crypto store db hash := by
  classical
  have hreads := h.isFinalized_reads hworkers (hash_of_isFinalized hfinal)
  exact of_decide_eq_true (hreads.eq_of_ok hfinal).symm

/-- Finalized blocks are on one chain, so a height has one of them. -/
theorem isFinal_unique (h : Sound crypto store verdict db) {hash hash' : String}
    (hfinal : IsFinal crypto store db hash) (hfinal' : IsFinal crypto store db hash')
    (hheight : heightOf crypto store db hash = heightOf crypto store db hash') : hash = hash' := by
  obtain ⟨e, he, rfl, -⟩ := hfinal
  obtain ⟨e', he', rfl, -⟩ := hfinal'
  rw [heightOf_chain h he, heightOf_chain h he'] at hheight
  have hsame : e = e' := by
    have hnodup : (db.canonicalChain.map Prod.fst).Nodup :=
      List.pairwise_map.mpr (h.selected.pairwise_lt.imp fun hlt => ne_of_lt hlt)
    exact List.inj_on_of_nodup_map hnodup he he' (Option.some.inj hheight)
  rw [hsame]

/-- Finality is irrevocable. In every store that a run reaches, the selected chain is the lineage
of the tip, with heights that count on from the anchor's; the evidence is valid and on it; no two
finalized blocks share a height; and a block that has been reported as final is so in every later
state, unless no decoder is available. -/
theorem finality_irrevocable (hrun : Run crypto store verdict {} db) :
    SelectedChain crypto store db db.selectedTip db.canonicalChain ∧
    (∀ row ∈ db.finality, ∃ height, retained crypto store row = .ok height ∧
      (height, row.hash) ∈ db.canonicalChain) ∧
    (∀ hash hash' workers workers', Faithful verdict workers → Faithful verdict workers' →
      isFinalized crypto store workers db hash = .ok true →
      isFinalized crypto store workers' db hash' = .ok true →
      heightOf crypto store db hash = heightOf crypto store db hash' → hash = hash') ∧
    ∀ hash workers, Faithful verdict workers →
      isFinalized crypto store workers db hash = .ok true →
      ∀ db', Run crypto store verdict db db' → ∀ workers', Faithful verdict workers' →
        Reads (Available crypto store workers' db')
          (isFinalized crypto store workers' db' hash) true := by
  have hsound := sound_of_run hrun
  refine ⟨hsound.selected, ?_, ?_, ?_⟩
  · intro row hrow
    refine ⟨_, (hsound.evidence row hrow).valid, ?_⟩
    have hon := hsound.finalized row hrow
    rw [← evidenceOf_hash crypto store]
    exact hon
  · intro hash hash' workers workers' hworkers hworkers' hfinal hfinal' hheight
    exact isFinal_unique hsound (isFinal_of_isFinalized hsound hworkers hfinal)
      (isFinal_of_isFinalized hsound hworkers' hfinal') hheight
  · intro hash workers hworkers hfinal db' hlater workers' hworkers'
    classical
    have hkept := isFinal_of_run hsound hlater (isFinal_of_isFinalized hsound hworkers hfinal)
    have hreads := (hsound.of_run hlater).isFinalized_reads hworkers' (hash_of_isFinalized hfinal)
    rwa [decide_eq_true hkept] at hreads

/-- A block on the anchor can be selected and then finalized. -/
theorem exists_finalized (hrun : Run crypto store verdict {} db)
    (hworkers : Faithful verdict workers) (havailable : Available crypto store workers db)
    (htip : db.selectedTip = none) (hempty : db.finality = []) (c : Commitment crypto store.ctx)
    (hcount : c.equivocators.length ≤ 599) (hheight : c.height = store.anchorHeight + 1)
    (hlink : links crypto store db c.hash = some (store.anchorHeight + 1, store.anchorHash))
    (hne : c.hash ≠ store.anchorHash) :
    ∃ db', Run crypto store verdict {} db' ∧
      isFinalized crypto store workers db' c.hash = .ok true := by
  have hsound := sound_of_run hrun
  have hchain : SelectedChain crypto store db (some c.hash) [(store.anchorHeight + 1, c.hash)] := by
    have hanchor : StoreLineage crypto store db [] store.anchorHash := .anchor
    have hlineage := Lineage.extend hanchor hne (by simpa using hlink)
    simpa [SelectedChain] using hlineage
  have hselect := (hsound.selectChain_iff hworkers havailable).mpr
    ⟨fun t ht => Option.some.inj ht ▸ (pattern_eq_ok.mp c.hash_valid).2, htip.symm, _, hchain,
      by simp [hempty], rfl⟩
  have hrun' := hrun.tail (.commits (.selectChain _ _) workers hworkers hselect)
  have hsound' := sound_of_run hrun'
  obtain ⟨trust, htrust, hsize⟩ := trustBytes_commitment c hcount
  have hmem : (c.height, c.hash) ∈ [(store.anchorHeight + 1, c.hash)] := by simp [hheight]
  have hfinalize := (hsound'.finalize_iff hworkers havailable htrust hsize).mpr
    ⟨⟨hmem, by simp [hempty]⟩, rfl⟩
  have hlast := hrun'.tail (.commits (.finalize c.bytes c.trusted c.equivocators) workers hworkers
    (map_eq_ok.mpr ⟨_, hfinalize, rfl⟩))
  have hfinal := hsound'.isFinalized_finalize hworkers havailable htrust hsize hfinalize hmem
    (le_refl _)
  exact ⟨_, hlast, hfinal⟩

/-- The store of one block has the lineage that finality rests on; and once the block is selected
and a quorum has signed it, it is final for good. -/
theorem finality_irrevocable_sample : ∃ raw,
    SelectedChain sampleCrypto sampleStore (withBlock sampleCrypto sampleStore {} raw) none [] ∧
    (recordHash (recordOf sampleCrypto sampleStore raw) ≠ sampleContext.genesisHash →
      ∃ db, Run sampleCrypto sampleStore sampleWorkers.decode {} db ∧
        isFinalized sampleCrypto sampleStore sampleWorkers db
          (recordHash (recordOf sampleCrypto sampleStore raw)) = .ok true ∧
        ∀ db', Run sampleCrypto sampleStore sampleWorkers.decode db db' →
          Reads (Available sampleCrypto sampleStore sampleWorkers db')
            (isFinalized sampleCrypto sampleStore sampleWorkers db'
              (recordHash (recordOf sampleCrypto sampleStore raw))) true) := by
  obtain ⟨raw, hrun, -, havailable, hlink⟩ := run_sample
  refine ⟨raw, (finality_irrevocable hrun).1, fun hne => ?_⟩
  have hhex := ((sound_of_run hrun).blocks.verified _ (List.mem_singleton_self _)).hex
  obtain ⟨db, hfinal⟩ := exists_finalized hrun faithful_sample havailable rfl rfl
    (sampleCommitment 1 _ (by decide) hhex) (Nat.zero_le _) rfl hlink hne
  exact ⟨db, hfinal.1, hfinal.2, fun db' hlater =>
    (finality_irrevocable hfinal.1).2.2.2 _ _ faithful_sample hfinal.2 db' hlater _
      faithful_sample⟩

/-! ## Integrity and repair -/

/-- Every store that a run reaches passes its integrity scan, and rebuilding its indexes changes
no row. -/
theorem integrity_of_run (hrun : Run crypto store verdict {} db)
    (hworkers : Faithful verdict workers) :
    Reads (Available crypto store workers db) (checkIntegrity crypto store workers db)
      (reportOf crypto store db) ∧
    Reads (Available crypto store workers db) (rebuildIndexes crypto store workers db)
      (reportOf crypto store db, db) := by
  have hsound := sound_of_run hrun
  refine ⟨hsound.checkIntegrity_reads hworkers, ?_⟩
  have hreads := rebuildIndexes_reads hworkers hsound.toAuthentic
  rwa [hsound.restored_eq] at hreads

/-- The scan of the store of one block counts it. -/
theorem integrity_of_run_sample : ∃ raw report,
    checkIntegrity sampleCrypto sampleStore sampleWorkers
      (withBlock sampleCrypto sampleStore {} raw) = .ok report ∧ report.blocks = 1 := by
  obtain ⟨raw, hrun, -, havailable, -⟩ := run_sample
  exact ⟨raw, _, (integrity_of_run hrun faithful_sample).1.ok havailable, rfl⟩

/-- Whatever the derived tables have become, rebuilding them restores the store. -/
theorem repair (hrun : Run crypto store verdict {} db) (hworkers : Faithful verdict workers)
    (hblocks : db'.blocks = db.blocks) (hfinality : db'.finality = db.finality)
    (htip : db'.selectedTip = db.selectedTip) :
    Reads (Available crypto store workers db) (rebuildIndexes crypto store workers db')
      (reportOf crypto store db, db) := by
  have hsound := sound_of_run hrun
  have hlinks : links crypto store db = links crypto store db' := by
    funext x
    rw [links, links, hblocks]
  have hauthentic : Authentic crypto store verdict db' db.canonicalChain :=
    { blocks := ⟨hblocks ▸ hsound.blocks.nodup, hblocks ▸ hsound.blocks.verified⟩
      selected := by
        rw [htip]
        exact hsound.selected.mono fun x l hl => hlinks ▸ hl
      evidence := hfinality ▸ hsound.evidence
      finalized := hfinality ▸ hsound.finalized
      finality_nodup := hfinality ▸ hsound.finality_nodup }
  have hrestored : restored crypto store db' db.canonicalChain = db := by
    conv_rhs => rw [← hsound.restored_eq]
    rw [restored, restored, hblocks, hfinality, htip]
  have hreads := rebuildIndexes_reads hworkers hauthentic
  rw [hrestored] at hreads
  rwa [Available, ← hblocks]

/-- The store of one block is restored after all its derived rows are lost. -/
theorem repair_sample : ∃ raw,
    (rebuildIndexes sampleCrypto sampleStore sampleWorkers
      { blocks := (withBlock sampleCrypto sampleStore {} raw).blocks }).map Prod.snd =
        .ok (withBlock sampleCrypto sampleStore {} raw) := by
  obtain ⟨raw, hrun, -, havailable, -⟩ := run_sample
  have hreads : Reads _ (rebuildIndexes sampleCrypto sampleStore sampleWorkers
      { blocks := (withBlock sampleCrypto sampleStore {} raw).blocks }) _ :=
    repair hrun faithful_sample rfl rfl rfl
  refine ⟨raw, ?_⟩
  rw [hreads.ok havailable]
  rfl

/-! ## Look-ups -/

/-- The bytes of the stored blocks with a property, in the order of their hashes. -/
def blocksWith (db : Tables) (p : String × ByteArray → Bool) : List ByteArray :=
  ((db.blocks.filter p).insertionSort fun a b => a.1 ≤ b.1).map Prod.snd

theorem loadAll_reads (h : Sound crypto store verdict db) (hworkers : Faithful verdict workers)
    {blocks : Table String ByteArray} (hblocks : ∀ e ∈ blocks, e ∈ db.blocks)
    (message : String) :
    Reads (Available crypto store workers db)
      (loadAll crypto store workers db blocks.keys message) (blocks.map Prod.snd) := by
  rw [loadAll, Table.keys, List.mapM_map]
  refine Reads.mapM fun e he => ?_
  have hload := load_reads hworkers h.blocks true (fun _ => h.indexed) e.1
  rw [h.blocks.get?_of_mem (hblocks e he)] at hload
  exact hload.bind (Reads.of_eq rfl)

theorem mem_sorted_filter {p : String × ByteArray → Bool} {e : String × ByteArray} :
    e ∈ (db.blocks.filter p).insertionSort (fun a b => a.1 ≤ b.1) ↔
      e ∈ db.blocks ∧ p e = true := by
  rw [(List.perm_insertionSort _ _).mem_iff, List.mem_filter]

theorem lookup_reads (h : Sound crypto store verdict db) (hworkers : Faithful verdict workers)
    (column : IndexRow → Bool) :
    Reads (Available crypto store workers db) (lookup crypto store workers db column)
      (blocksWith db fun e => column (derived (recordOf crypto store e.2))) := by
  have hkeys : ((db.blockIndex.filter column).map IndexRow.hash).insertionSort (· ≤ ·) =
      Table.keys ((db.blocks.filter fun e => column (derived (recordOf crypto store e.2)))
        |>.insertionSort fun a b => a.1 ≤ b.1) := by
    have hrows : (db.blockIndex.filter column).map IndexRow.hash =
        (db.blocks.filter fun e => column (derived (recordOf crypto store e.2))).map Prod.fst := by
      rw [h.indexed.blocks, List.filter_map, List.map_map]
      refine List.map_congr_left fun e he => ?_
      exact (h.blocks.verified e (List.mem_of_mem_filter he)).keyed
    rw [hrows, Table.keys]
    exact (List.map_insertionSort _ _ Prod.fst _ fun _ _ _ _ => Iff.rfl).symm
  rw [lookup, hkeys]
  exact loadAll_reads h hworkers (fun e he => (mem_sorted_filter.mp he).1) _

/-- The block has a transaction with the identifier. -/
def hasTransaction (crypto : Crypto) (store : StoreConfig) (txId : String)
    (e : String × ByteArray) : Bool :=
  (transactionRows (recordOf crypto store e.2)).any (·.txId = txId)

theorem byTransaction_keys (h : Sound crypto store verdict db) (txId : String) :
    Bft.sortedSet ((db.transactionIndex.filter (·.txId = txId)).map TransactionRow.blockHash) =
      Table.keys ((db.blocks.filter (hasTransaction crypto store txId)).insertionSort
        fun a b => a.1 ≤ b.1) := by
  have hright : Table.keys ((db.blocks.filter (hasTransaction crypto store txId)).insertionSort
      fun a b => a.1 ≤ b.1) =
      ((db.blocks.filter (hasTransaction crypto store txId)).map Prod.fst).insertionSort
        (· ≤ ·) := by
    rw [Table.keys]
    exact List.map_insertionSort _ _ Prod.fst _ fun _ _ _ _ => Iff.rfl
  -- two ascending lists without repetitions that have the same members
  have hnodup : ((db.blocks.filter (hasTransaction crypto store txId)).map Prod.fst).Nodup :=
    h.blocks.nodup.sublist (List.filter_sublist.map Prod.fst)
  have hmem : ∀ a, a ∈ (db.transactionIndex.filter (·.txId = txId)).map TransactionRow.blockHash ↔
      a ∈ (db.blocks.filter (hasTransaction crypto store txId)).map Prod.fst := by
    intro a
    simp only [h.indexed.transactions, List.mem_map, List.mem_filter, List.mem_flatMap,
      hasTransaction, List.any_eq_true, decide_eq_true_eq]
    constructor
    · rintro ⟨row, ⟨⟨e, he, hrow⟩, hid⟩, rfl⟩
      refine ⟨e, ⟨he, row, hrow, hid⟩, ?_⟩
      rw [transactionRows_hash hrow, (h.blocks.verified e he).keyed]
    · rintro ⟨e, ⟨he, row, hrow, hid⟩, rfl⟩
      refine ⟨row, ⟨⟨e, he, hrow⟩, hid⟩, ?_⟩
      rw [transactionRows_hash hrow, (h.blocks.verified e he).keyed]
  rw [hright, Bft.sortedSet]
  refine List.Perm.eq_of_pairwise ?_ (List.pairwise_insertionSort _ _)
    (List.pairwise_insertionSort _ _) ?_
  · exact fun a b _ _ hab hba => le_antisymm hab hba
  · refine (List.perm_insertionSort _ _).trans (List.Perm.trans ?_
      (List.perm_insertionSort _ _).symm)
    rw [List.perm_ext_iff_of_nodup (List.nodup_dedup _) hnodup]
    intro a
    rw [List.mem_dedup]
    exact hmem a

/-- The look-ups of a store that a run reaches find the blocks that they name, each with the bytes
that have been inserted, and no others. -/
theorem lookups_exact (hrun : Run crypto store verdict {} db) (hworkers : Faithful verdict workers) :
    (∀ hash, isHexAfter "" 64 hash = true →
      Reads (Available crypto store workers db) (get crypto store workers db hash)
        (db.blocks.get? hash)) ∧
    (∀ height : Int, 1 ≤ height ∧ height ≤ maxUint →
      Reads (Available crypto store workers db) (candidatesAtHeight crypto store workers db height)
        (blocksWith db fun e => (derived (recordOf crypto store e.2)).height = height)) ∧
    (∀ hash, isHexAfter "" 64 hash = true →
      Reads (Available crypto store workers db) (byPreviousHash crypto store workers db hash)
        (blocksWith db fun e => (derived (recordOf crypto store e.2)).previousHash = hash) ∧
      Reads (Available crypto store workers db) (byOriginalHash crypto store workers db hash)
        (blocksWith db fun e => (derived (recordOf crypto store e.2)).originalHash = hash) ∧
      Reads (Available crypto store workers db) (byTransaction crypto store workers db hash)
        (blocksWith db (hasTransaction crypto store hash))) := by
  have hsound := sound_of_run hrun
  have hh64 : ∀ hash, isHexAfter "" 64 hash = true → lift (h64 (.str hash)) = .ok hash :=
    fun hash hhash => lift_eq_ok.mpr (pattern_eq_ok.mpr ⟨rfl, hhash⟩)
  refine ⟨fun hash hhash => ?_, fun height hheight => ?_, fun hash hhash => ⟨?_, ?_, ?_⟩⟩
  · have hload := load_reads hworkers hsound.blocks true (fun _ => hsound.indexed) hash
    refine Reads.bind (Reads.of_eq (hh64 hash hhash)) (hload.bind (Reads.of_eq ?_))
    rw [Option.map_map]
    simp [Function.comp_def]
  · have huint : lift (uint (.int height) 1 maxUint) = .ok height :=
      lift_eq_ok.mpr (uint_eq_ok.mpr ⟨rfl, hheight⟩)
    exact Reads.bind (Reads.of_eq huint) (lookup_reads hsound hworkers _)
  · exact Reads.bind (Reads.of_eq (hh64 hash hhash)) (lookup_reads hsound hworkers _)
  · exact Reads.bind (Reads.of_eq (hh64 hash hhash)) (lookup_reads hsound hworkers _)
  · refine Reads.bind (Reads.of_eq (hh64 hash hhash)) ?_
    rw [byTransaction_keys hsound]
    exact loadAll_reads hsound hworkers (fun e he => (mem_sorted_filter.mp he).1) _

/-- The block of the sample is found at its height. -/
theorem lookups_exact_sample : ∃ raw,
    candidatesAtHeight sampleCrypto sampleStore sampleWorkers
      (withBlock sampleCrypto sampleStore {} raw) 1 = .ok [raw] := by
  obtain ⟨raw, hrun, -, havailable, hlink⟩ := run_sample
  obtain ⟨-, hheight, -⟩ := lookups_exact hrun faithful_sample
  refine ⟨raw, ((hheight 1 (by decide)).ok havailable).trans ?_⟩
  have hone : (derived (recordOf sampleCrypto sampleStore raw)).height = 1 := by
    simpa [links, withBlock, Table.get?_cons] using congrArg (Option.map Prod.fst) hlink
  simp [blocksWith, withBlock, hone]

/-! ## Blocks for good -/

/-- A run adds blocks behind the ones that are stored. -/
theorem blocks_of_run (h : Sound crypto store verdict db) (hrun : Run crypto store verdict db db') :
    db.blocks <+: db'.blocks := by
  induction hrun with
  | refl => exact List.prefix_rfl
  | tail hrun hcall ih =>
    obtain rfl | ⟨raw, -, -, rfl⟩ | ⟨tip, chain, -, -, rfl⟩ | ⟨row, -, -, -, rfl⟩ :=
      call_cases (h.of_run hrun) hcall
    · exact ih
    · exact ih.trans (List.prefix_append _ _)
    · exact ih
    · exact ih

theorem get?_of_prefix {t u : Table String ByteArray} (h : t <+: u) {key : String}
    {raw : ByteArray} (hget : t.get? key = some raw) : u.get? key = some raw := by
  obtain ⟨rest, rfl⟩ := h
  rw [Table.get?_append, hget, Option.some_or]

/-- A block whose insertion has been acknowledged is there for good: every later look-up by its
hash returns the bytes that have been inserted, and every later insertion of them is a duplicate
that changes nothing. -/
theorem inserted_forever (hrun : Run crypto store verdict {} db)
    (hworkers : Faithful verdict workers) {raw : ByteArray} {new : Bool}
    (hinsert : insert crypto store workers db raw = .ok (new, db')) :
    (new = true ↔ db.blocks.get? (recordHash (recordOf crypto store raw)) = none) ∧
    ∀ later, Run crypto store verdict db' later → ∀ workers', Faithful verdict workers' →
      Reads (Available crypto store workers' later)
        (get crypto store workers' later (recordHash (recordOf crypto store raw))) (some raw) ∧
      Reads (Available crypto store workers' later) (insert crypto store workers' later raw)
        (false, later) := by
  have hsound := sound_of_run hrun
  obtain ⟨hverified, hcases⟩ := insert_cases hworkers hinsert
  have hstored : db'.blocks.get? (recordHash (recordOf crypto store raw)) = some raw ∧
      Sound crypto store verdict db' ∧
      (new = true ↔ db.blocks.get? (recordHash (recordOf crypto store raw)) = none) := by
    obtain ⟨rfl, rfl, hget⟩ | ⟨rfl, rfl, hnew⟩ := hcases
    · exact ⟨hget, hsound, by simp [hget]⟩
    · refine ⟨?_, sound_withBlock hsound hverified hnew, by simp [hnew]⟩
      simp [withBlock, Table.get?_append, hnew, Table.get?_cons]
  obtain ⟨hget, hsound', hnew⟩ := hstored
  refine ⟨hnew, fun later hlater workers' hworkers' => ?_⟩
  have hget' := get?_of_prefix (blocks_of_run hsound' hlater) hget
  have hlaterSound := hsound'.of_run hlater
  have hload := load_reads hworkers' hlaterSound.blocks true (fun _ => hlaterSound.indexed)
    (recordHash (recordOf crypto store raw))
  rw [hget', Option.map_some] at hload
  refine ⟨Reads.bind (Reads.of_eq (lift_eq_ok.mpr hverified.hex)) (hload.bind (Reads.of_eq rfl)), ?_⟩
  refine Reads.bind (verify_reads hworkers' hverified (Table.mem_of_get? hget')) ?_
  simp only [hget']
  exact Reads.bind (Reads.of_eq (check_pos trivial)) (hload.bind (Reads.of_eq rfl))

theorem inserted_forever_sample : ∃ raw,
    get sampleCrypto sampleStore sampleWorkers (withBlock sampleCrypto sampleStore {} raw)
      (recordHash (recordOf sampleCrypto sampleStore raw)) = .ok (some raw) := by
  obtain ⟨raw, -, hinsert, havailable, -⟩ := run_sample
  obtain ⟨-, hkept⟩ := inserted_forever .refl faithful_sample hinsert
  exact ⟨raw, (hkept _ .refl _ faithful_sample).1.ok havailable⟩

end CanonicalV3

end ZoidbergChain
