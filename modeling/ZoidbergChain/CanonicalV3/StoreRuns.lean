import ZoidbergChain.CanonicalV3.StoreLaws

/-!
# Runs of a store

- `insert_cases`, `selectChain_cases`, `finalize_cases`, `rebuildIndexes_cases`: what an
  operation does when it commits.
- `Run`: any number of calls, each of which commits or leaves the tables unchanged, with any
  decoder that is faithful to the verdict.
- `sound_of_run`: every store that a run reaches is sound.
-/

namespace ZoidbergChain

open Python Consensus

namespace CanonicalV3

variable {crypto : Crypto} {store : StoreConfig} {verdict : ByteArray → Outcome}
  {workers : Workers} {db db' : Tables}

/-! ## Inserting -/

/-- The tables with a new block. -/
def withBlock (crypto : Crypto) (store : StoreConfig) (db : Tables) (raw : ByteArray) : Tables :=
  let record := recordOf crypto store raw
  { db with
    blocks := db.blocks ++ [(recordHash record, raw)]
    blockIndex := db.blockIndex ++ [derived record]
    transactionIndex := db.transactionIndex ++ transactionRows record }

/-- An insertion finds the block as it is, or adds it. -/
theorem insert_cases (hworkers : Faithful verdict workers) {raw : ByteArray} {new : Bool}
    (h : insert crypto store workers db raw = .ok (new, db')) :
    Verified crypto store verdict (recordHash (recordOf crypto store raw)) raw ∧
      (new = false ∧ db' = db ∧
          db.blocks.get? (recordHash (recordOf crypto store raw)) = some raw ∨
        new = true ∧ db' = withBlock crypto store db raw ∧
          db.blocks.get? (recordHash (recordOf crypto store raw)) = none) := by
  simp only [insert, stored_bind_eq_ok] at h
  obtain ⟨record, hverify, h⟩ := h
  obtain ⟨rfl, hverified⟩ := verified_of_verify hworkers hverify
  refine ⟨hverified, ?_⟩
  cases hget : db.blocks.get? (recordHash (recordOf crypto store raw)) with
  | some existing =>
    simp only [hget, stored_bind_eq_ok, check_eq_ok] at h
    obtain ⟨⟨⟩, rfl, _, -, hout⟩ := h
    obtain ⟨rfl, rfl⟩ := Prod.mk.inj (Except.ok.inj hout)
    exact Or.inl ⟨rfl, rfl, rfl⟩
  | none =>
    simp only [hget, stored_bind_eq_ok, putIndexes] at h
    obtain ⟨indexed, ⟨⟨⟩, -, ⟨⟩, -, hindexed⟩, hout⟩ := h
    obtain ⟨rfl, rfl⟩ := Prod.mk.inj (Except.ok.inj hout)
    obtain rfl := Except.ok.inj hindexed
    exact Or.inr ⟨rfl, rfl, rfl⟩

/-- A new block changes no link. -/
theorem links_withBlock (raw : ByteArray) (x : String) (l : Int × String)
    (h : links crypto store db x = some l) :
    links crypto store (withBlock crypto store db raw) x = some l := by
  obtain ⟨raw', hget, hrow⟩ := Option.map_eq_some_iff.mp h
  rw [links, withBlock]
  dsimp only
  rw [Table.get?_append, hget, Option.some_or, Option.map_some, hrow]

theorem SelectedChain.mono {tip : Option String} {chain : List (Int × String)}
    (h : SelectedChain crypto store db tip chain)
    (hlinks : ∀ x l, links crypto store db x = some l → links crypto store db' x = some l) :
    SelectedChain crypto store db' tip chain := by
  cases tip with
  | none => exact h
  | some tip => exact ⟨h.1, h.2.mono hlinks⟩

theorem sound_withBlock (h : Sound crypto store verdict db) {raw : ByteArray}
    (hverified : Verified crypto store verdict (recordHash (recordOf crypto store raw)) raw)
    (hnew : db.blocks.get? (recordHash (recordOf crypto store raw)) = none) :
    Sound crypto store verdict (withBlock crypto store db raw) :=
  { blocks := by
      refine ⟨?_, ?_⟩
      · have hfresh := Table.get?_eq_none.mp hnew
        simp only [withBlock, Table.keys, List.map_append, List.map_cons, List.map_nil]
        refine List.nodup_append.mpr ⟨h.blocks.nodup, List.nodup_singleton _, ?_⟩
        intro a ha b hb heq
        obtain rfl := List.mem_singleton.mp hb
        exact hfresh (heq ▸ ha)
      · intro e he
        obtain he | he := List.mem_append.mp he
        · exact h.blocks.verified e he
        · obtain rfl := List.mem_singleton.mp he
          exact hverified
    selected := h.selected.mono (links_withBlock raw)
    evidence := h.evidence
    finalized := h.finalized
    finality_nodup := h.finality_nodup
    indexed := by
      refine ⟨?_, ?_⟩
      · simp only [withBlock, List.map_append, h.indexed.blocks, List.map_cons, List.map_nil]
      · simp only [withBlock, List.flatMap_append, h.indexed.transactions, List.flatMap_cons,
          List.flatMap_nil, List.append_nil] }

/-! ## Selecting -/

theorem selectChain_cases (h : Sound crypto store verdict db)
    (hworkers : Faithful verdict workers) {tip expectedTip : Option String}
    (hselect : selectChain crypto store workers db tip expectedTip = .ok db') :
    ∃ chain, SelectedChain crypto store db tip chain ∧ expectedTip = db.selectedTip ∧
      (∀ row ∈ db.finality, evidenceOf crypto store row ∈ chain) ∧
      db' = { db with canonicalChain := chain, selectedTip := tip } := by
  simp only [selectChain, stored_bind_eq_ok, check_eq_ok, proofs_eq h.evidence] at hselect
  obtain ⟨⟨⟩, -, old, hold, ⟨⟩, hexpected, chain, hchain, evidence, hevidence, ⟨⟩, hkept, hout⟩ :=
    hselect
  obtain rfl := Except.ok.inj hevidence
  obtain rfl := (h.selected_reads hworkers).eq_of_ok hold
  refine ⟨chain, selectedChain_of_lineage hchain, ?_, ?_, (Except.ok.inj hout).symm⟩
  · rw [← hexpected, h.selected.getLast?]
  · exact fun row hrow => hkept _ (List.mem_map_of_mem hrow)

theorem sound_select (h : Sound crypto store verdict db) {tip : Option String}
    {chain : List (Int × String)} (hchain : SelectedChain crypto store db tip chain)
    (hkept : ∀ row ∈ db.finality, evidenceOf crypto store row ∈ chain) :
    Sound crypto store verdict { db with canonicalChain := chain, selectedTip := tip } :=
  { blocks := ⟨h.blocks.nodup, h.blocks.verified⟩
    selected := hchain
    evidence := h.evidence
    finalized := hkept
    finality_nodup := h.finality_nodup
    indexed := ⟨h.indexed.blocks, h.indexed.transactions⟩ }

/-! ## Finalizing -/

theorem texts_map_str (xs : List String) : texts (.list (xs.map .str)) = .ok xs := by
  have hforall : List.Forall₂ (fun x y => pattern x (fun _ => true) = .ok y)
      (xs.map Value.str) xs := by
    rw [List.forall₂_map_left_iff]
    exact List.forall₂_same.mpr fun x _ => pattern_eq_ok.mpr ⟨rfl, rfl⟩
  exact mapM_of_forall₂ hforall

theorem sortKeys_texts (xs : List String) :
    Json.sortKeys (.list (xs.map .str)) = .list (xs.map .str) := by
  rw [Json.sortKeys, sortItems_eq_map, List.map_map]
  rfl

theorem unique_texts (xs : List String) : Unique (.list (xs.map .str)) := by
  show Json.ObjectsItems _ (xs.map Value.str)
  induction xs with
  | nil => trivial
  | cons x xs ih => exact ⟨trivial, ih⟩

theorem sortedSet_sorted (xs : List String) :
    Bft.sortedSet xs = Bft.sortedSet (Bft.sortedSet xs) := by
  refine Bft.Verifier.eq_sortedSet_iff.mpr ?_
  have hperm := List.perm_insertionSort (· ≤ ·) xs.dedup
  have hnodup : (Bft.sortedSet xs).Nodup := hperm.nodup_iff.mpr (List.nodup_dedup xs)
  exact (List.pairwise_insertionSort (· ≤ ·) xs.dedup).imp₂
    (fun _ _ hle hne => lt_of_le_of_ne hle hne) hnodup

theorem mem_sortedSet {xs : List String} {a : String} : a ∈ Bft.sortedSet xs ↔ a ∈ xs := by
  simp [Bft.sortedSet]

/-- The trusted validators and the equivocators come back from the bytes that are kept. -/
theorem trustContext_of_trustBytes {trusted equivocators : List String} {trust : ByteArray}
    (h : trustBytes trusted equivocators = .ok trust) (hsize : trust.size ≤ 32768) :
    ∃ v, parse trust 32768 = .ok v ∧
      trustContext v = .ok (trusted, Bft.sortedSet equivocators) := by
  have hunique : Unique (.dict [("validators", .list (trusted.map .str)),
      ("equivocators", .list ((Bft.sortedSet equivocators).map .str))]) :=
    ⟨(by decide : ["validators", "equivocators"].Nodup), unique_texts _, unique_texts _, trivial⟩
  refine ⟨_, parse_canonical hunique h hsize, ?_⟩
  obtain ⟨d, hclosed⟩ := (closed_sortKeys (.dict [("validators", .list (trusted.map .str)),
      ("equivocators", .list ((Bft.sortedSet equivocators).map .str))])
    ["validators", "equivocators"] []).mpr ⟨_, rfl⟩
  have hvalidators : (Value.dict [("validators", .list (trusted.map .str)),
      ("equivocators", .list ((Bft.sortedSet equivocators).map .str))]).field "validators" =
      .list (trusted.map .str) := rfl
  have hequivocators : (Value.dict [("validators", .list (trusted.map .str)),
      ("equivocators", .list ((Bft.sortedSet equivocators).map .str))]).field "equivocators" =
      .list ((Bft.sortedSet equivocators).map .str) := rfl
  rw [trustContext, hclosed, ok_bind, field_sortKeys, field_sortKeys, hvalidators, hequivocators,
    sortKeys_texts, sortKeys_texts, texts_map_str, ok_bind, texts_map_str, ok_bind,
    require_pos (sortedSet_sorted equivocators), ok_bind]

/-- Only the members of the set of equivocators matter. -/
theorem validateProof_sortedSet {v height hash : Value} {trusted equivocators : List String}
    (h : validateFinalityProof crypto store.ctx v trusted equivocators height hash = .ok ()) :
    validateFinalityProof crypto store.ctx v trusted (Bft.sortedSet equivocators) height hash =
      .ok () := by
  simp only [validateFinalityProof, bind_eq_ok, require_eq_ok, forM_eq_ok, mem_sortedSet] at h ⊢
  exact h

/-- A checked proof and the trust context that it is kept with are valid evidence. -/
theorem validEvidence_of_proof {proof : Value} {proofRaw trust : ByteArray}
    {trusted equivocators : List String} {height : Int} {hash : String}
    (hparse : parse proofRaw maxProof = .ok proof)
    (hitem : proof.item "block_height" = .ok (.int height))
    (hproof : validateFinalityProof crypto store.ctx proof trusted equivocators (.int height)
      (.str hash) = .ok ())
    (htrust : trustBytes trusted equivocators = .ok trust) (hsize : trust.size ≤ 32768) :
    ValidEvidence crypto store ⟨hash, proofRaw, trust⟩ ∧
      evidenceOf crypto store ⟨hash, proofRaw, trust⟩ = (height, hash) := by
  obtain ⟨n, b, signers, hn, hb, accepted⟩ := accepted_of_validateProof hproof
  obtain rfl := Value.int.inj hn
  have hint : proof.intAt "block_height" = height := by
    rw [Value.intAt, accepted.height_field]
  obtain ⟨v, hv, hcontext⟩ := trustContext_of_trustBytes htrust hsize
  have hretained : retained crypto store ⟨hash, proofRaw, trust⟩ = .ok height := by
    rw [retained, hparse, ok_bind, hv, ok_bind, hcontext, ok_bind]
    dsimp only
    rw [hitem, ok_bind, validateProof_sortedSet hproof, ok_bind, hint]
  have hevidence : evidenceOf crypto store ⟨hash, proofRaw, trust⟩ = (height, hash) := by
    rw [evidenceOf, hretained]
  obtain ⟨hproofSize, -, hcanonical⟩ := parse_eq_ok.mp hparse
  refine ⟨⟨⟨size_pos_of_canonical hcanonical, hproofSize, size_pos_of_canonical htrust, hsize⟩,
    ?_⟩, hevidence⟩
  rw [hevidence]
  exact hretained

/-- A finalization finds its evidence, or adds it for a block of the selected chain. -/
theorem finalize_cases (h : Sound crypto store verdict db) (hworkers : Faithful verdict workers)
    {proofRaw : ByteArray} {trusted equivocators : List String} {new : Bool}
    (hfinalize : finalize crypto store workers db proofRaw trusted equivocators =
      .ok (new, db')) :
    new = false ∧ db' = db ∨
      new = true ∧ ∃ row, ValidEvidence crypto store row ∧
        evidenceOf crypto store row ∈ db.canonicalChain ∧
        row.hash ∉ db.finality.map FinalityRow.hash ∧
        db' = { db with finality := db.finality ++ [row] } := by
  simp only [finalize, stored_bind_eq_ok, lift_eq_ok, check_eq_ok] at hfinalize
  obtain ⟨proof, hparse, height, hheight, hash, hhash, ⟨⟩, hproof, trust, htrust, chain, hchain,
    ⟨⟩, hon, hfinalize⟩ := hfinalize
  obtain rfl := (h.selected_reads hworkers).eq_of_ok hchain
  cases hfind : db.finality.find? (·.hash = proof.textAt "block_hash") with
  | some existing =>
    simp only [hfind, stored_bind_eq_ok] at hfinalize
    obtain ⟨⟨⟩, -, hout⟩ := hfinalize
    obtain ⟨rfl, rfl⟩ := Prod.mk.inj (Except.ok.inj hout)
    exact Or.inl ⟨rfl, rfl⟩
  | none =>
    simp only [hfind, stored_bind_eq_ok, check_eq_ok] at hfinalize
    obtain ⟨⟨⟩, hsize, hout⟩ := hfinalize
    obtain ⟨rfl, rfl⟩ := Prod.mk.inj (Except.ok.inj hout)
    refine Or.inr ⟨rfl, ⟨proof.textAt "block_hash", proofRaw, trust⟩, ?_⟩
    obtain ⟨n, b, signers, rfl, rfl, accepted⟩ := accepted_of_validateProof hproof
    have htext : proof.textAt "block_hash" = b := by
      rw [Value.textAt, accepted.hash_field]
    have hint : proof.intAt "block_height" = n := by
      rw [Value.intAt, accepted.height_field]
    rw [hint, htext] at hon
    rw [htext] at hfind ⊢
    obtain ⟨hvalid, hevidence⟩ := validEvidence_of_proof hparse hheight hproof htrust hsize
    refine ⟨hvalid, hevidence ▸ hon, fun hmem => ?_, rfl⟩
    obtain ⟨row, hrow, heq⟩ := List.mem_map.mp hmem
    have hnone := List.find?_eq_none.mp hfind row hrow
    simp [heq] at hnone

theorem sound_finalize (h : Sound crypto store verdict db) {row : FinalityRow}
    (hvalid : ValidEvidence crypto store row)
    (hon : evidenceOf crypto store row ∈ db.canonicalChain)
    (hnew : row.hash ∉ db.finality.map FinalityRow.hash) :
    Sound crypto store verdict { db with finality := db.finality ++ [row] } :=
  { blocks := ⟨h.blocks.nodup, h.blocks.verified⟩
    selected := h.selected
    evidence := by
      intro row' hrow
      obtain hrow | hrow := List.mem_append.mp hrow
      · exact h.evidence row' hrow
      · obtain rfl := List.mem_singleton.mp hrow
        exact hvalid
    finalized := by
      intro row' hrow
      obtain hrow | hrow := List.mem_append.mp hrow
      · exact h.finalized row' hrow
      · obtain rfl := List.mem_singleton.mp hrow
        exact hon
    finality_nodup := by
      rw [List.map_append, List.map_cons, List.map_nil]
      refine List.nodup_append.mpr ⟨h.finality_nodup, List.nodup_singleton _, ?_⟩
      intro a ha b hb heq
      obtain rfl := List.mem_singleton.mp hb
      exact hnew (heq ▸ ha)
    indexed := ⟨h.indexed.blocks, h.indexed.transactions⟩ }

/-! ## Integrity and repair -/

theorem BlocksVerified.get?_of_mem (h : BlocksVerified crypto store verdict db)
    {e : String × ByteArray} (he : e ∈ db.blocks) : db.blocks.get? e.1 = some e.2 :=
  Table.get?_of_mem h.nodup he

theorem Sound.foreignKeys (h : Sound crypto store verdict db) : ForeignKeys db := by
  have hkey : ∀ e ∈ db.blocks, recordHash (recordOf crypto store e.2) ∈ db.blocks.keys := by
    intro e he
    rw [(h.blocks.verified e he).keyed]
    exact List.mem_map_of_mem he
  have hchain : ∀ e ∈ db.canonicalChain, e.2 ∈ db.blocks.keys := by
    intro e he
    obtain ⟨raw, hget, -⟩ := h.selected.stored he
    exact List.mem_map_of_mem (f := Prod.fst) (Table.mem_of_get? hget)
  refine ⟨?_, ?_, hchain, ?_, ?_⟩
  · intro row hrow
    rw [h.indexed.blocks] at hrow
    obtain ⟨e, he, rfl⟩ := List.mem_map.mp hrow
    exact hkey e he
  · intro row hrow
    rw [h.indexed.transactions] at hrow
    obtain ⟨e, he, hrow⟩ := List.mem_flatMap.mp hrow
    rw [transactionRows_hash hrow]
    exact hkey e he
  · intro row hrow
    rw [← evidenceOf_hash crypto store]
    exact hchain _ (h.finalized row hrow)
  · intro tip htip
    have hlast := h.selected.getLast?
    rw [Option.mem_def.mp htip] at hlast
    obtain ⟨e, he, rfl⟩ := Option.map_eq_some_iff.mp hlast
    exact hchain e (List.mem_of_getLast? he)

/-- What `check_integrity` counts. -/
def reportOf (crypto : Crypto) (store : StoreConfig) (db : Tables) : Integrity :=
  { blocks := db.blocks.length
    nativeTransactionReferences :=
      (db.blocks.map fun e => (transactionRows (recordOf crypto store e.2)).length).sum
    selectedBlocks := db.canonicalChain.length
    finalityProofs := db.finality.length }

theorem Sound.checkIntegrity_reads (h : Sound crypto store verdict db)
    (hworkers : Faithful verdict workers) :
    Reads (Available crypto store workers db) (checkIntegrity crypto store workers db)
      (reportOf crypto store db) := by
  have hcounts : Reads (Available crypto store workers db)
      (db.blocks.keys.mapM (countTransactions crypto store workers db))
      (db.blocks.map fun e => (transactionRows (recordOf crypto store e.2)).length) := by
    rw [Table.keys, List.mapM_map]
    refine Reads.mapM fun e he => ?_
    have hload := load_reads hworkers h.blocks true (fun _ => h.indexed) e.1
    rw [h.blocks.get?_of_mem he] at hload
    exact hload.bind (Reads.of_eq rfl)
  refine Reads.bind (Reads.of_eq (check_pos h.foreignKeys)) (hcounts.bind ?_)
  have hlengths : db.blockIndex.length =
        (db.blocks.map fun e => (transactionRows (recordOf crypto store e.2)).length).length ∧
      db.transactionIndex.length =
        (db.blocks.map fun e => (transactionRows (recordOf crypto store e.2)).length).sum := by
    rw [h.indexed.blocks, h.indexed.transactions, List.length_map, List.length_map,
      List.length_flatMap]
    exact ⟨rfl, rfl⟩
  refine Reads.bind (Reads.of_eq (check_pos hlengths)) ((h.selected_reads hworkers).bind ?_)
  rw [proofs_eq h.evidence]
  refine Reads.of_eq ?_
  show Except.ok (⟨_, _, _, _⟩ : Integrity) = _
  rw [List.length_map, List.length_map]
  rfl

/-- The tables with the indexes of some of the blocks. -/
def indexing (crypto : Crypto) (store : StoreConfig) (db : Tables)
    (blocks : Table String ByteArray) : Tables :=
  { db with
    blockIndex := blocks.map fun e => derived (recordOf crypto store e.2)
    transactionIndex := blocks.flatMap fun e => transactionRows (recordOf crypto store e.2) }

/-- The loop of `rebuild_indexes` adds the rows of one block after the other. -/
theorem reindex_reads (hworkers : Faithful verdict workers)
    (h : BlocksVerified crypto store verdict db) (pre post : Table String ByteArray)
    (hblocks : db.blocks = pre ++ post) :
    Reads (Available crypto store workers db)
      (reindex crypto store workers post.keys (indexing crypto store db pre))
      (indexing crypto store db (pre ++ post)) := by
  induction post generalizing pre with
  | nil =>
    rw [List.append_nil]
    exact Reads.of_eq rfl
  | cons e post ih =>
    have hmem : e ∈ db.blocks := by simp [hblocks]
    have hload : Reads (Available crypto store workers db)
        (load crypto store workers (indexing crypto store db pre) e.1 false)
        (some (e.2, recordOf crypto store e.2)) := by
      have hverified : BlocksVerified crypto store verdict (indexing crypto store db pre) :=
        ⟨h.nodup, h.verified⟩
      have hreads := load_reads hworkers hverified false nofun e.1
      rw [hverified.get?_of_mem hmem] at hreads
      exact hreads
    have hkeyed : ∀ e ∈ db.blocks, recordHash (recordOf crypto store e.2) = e.1 :=
      fun e he => (h.verified e he).keyed
    have hfresh : ∀ e' ∈ pre, e'.1 ≠ e.1 := by
      intro e' he' heq
      have hnodup := h.nodup
      rw [hblocks, Table.keys, List.map_append, List.map_cons] at hnodup
      exact (List.nodup_append.mp hnodup).2.2 e'.1 (List.mem_map_of_mem he') e.1 (by simp) heq
    have hput : putIndexes (indexing crypto store db pre) (recordOf crypto store e.2) =
        .ok (indexing crypto store db (pre ++ [e])) := by
      have hpre : ∀ e' ∈ pre, e' ∈ db.blocks := fun e' he' => by simp [hblocks, he']
      have hrows : ((indexing crypto store db pre).blockIndex.all fun row =>
          row.hash ≠ recordHash (recordOf crypto store e.2)) = true := by
        simp only [indexing, List.all_map, List.all_eq_true, Function.comp_apply,
          decide_eq_true_eq, hkeyed e hmem]
        exact fun e' he' => (hkeyed e' (hpre e' he')).trans_ne (hfresh e' he')
      have htransactions : ((indexing crypto store db pre).transactionIndex.all fun row =>
          (transactionRows (recordOf crypto store e.2)).all fun new =>
            ¬ (row.blockHash = new.blockHash ∧ row.position = new.position)) = true := by
        simp only [List.all_eq_true, decide_eq_true_eq]
        intro row hrow new hnew hsame
        obtain ⟨e', he', hrow⟩ := List.mem_flatMap.mp hrow
        rw [transactionRows_hash hrow, transactionRows_hash hnew, hkeyed e hmem,
          hkeyed e' (hpre e' he')] at hsame
        exact hfresh e' he' hsame.1
      rw [putIndexes, check_pos hrows, check_pos htransactions]
      simp only [indexing, List.map_append, List.flatMap_append, List.map_cons, List.map_nil,
        List.flatMap_cons, List.flatMap_nil, List.append_nil]
      rfl
    have hsplit : db.blocks = (pre ++ [e]) ++ post := by
      rw [hblocks, List.append_assoc]
      rfl
    have hrest := ih _ hsplit
    rw [List.append_assoc, List.singleton_append] at hrest
    refine Reads.bind (hload.bind ?_) hrest
    exact Reads.of_eq hput

/-- `rebuild_indexes` restores the derived tables of an authentic store, whatever they were. -/
theorem rebuildIndexes_reads (hworkers : Faithful verdict workers) {chain : List (Int × String)}
    (h : Authentic crypto store verdict db chain) :
    Reads (Available crypto store workers db) (rebuildIndexes crypto store workers db)
      (reportOf crypto store (restored crypto store db chain), restored crypto store db chain) := by
  have hselected := CanonicalV3.selected_reads hworkers h false false nofun nofun
  have hindexes := reindex_reads hworkers h.blocks [] db.blocks rfl
  have hcheck := (sound_restored h).checkIntegrity_reads hworkers
  exact hselected.bind (hindexes.bind (Reads.bind hcheck (Reads.of_eq rfl)))

/-! ## Runs -/

/-- The operations that write. -/
inductive Operation where
  | insert (raw : ByteArray)
  | selectChain (tip expectedTip : Option String)
  | finalize (proofRaw : ByteArray) (trusted equivocators : List String)
  | rebuildIndexes

/-- The tables behind an operation that commits. -/
def Operation.apply (crypto : Crypto) (store : StoreConfig) (op : Operation) (workers : Workers)
    (db : Tables) : Stored Tables :=
  match op with
  | .insert raw => (CanonicalV3.insert crypto store workers db raw).map Prod.snd
  | .selectChain tip expectedTip =>
    CanonicalV3.selectChain crypto store workers db tip expectedTip
  | .finalize proofRaw trusted equivocators =>
    (CanonicalV3.finalize crypto store workers db proofRaw trusted equivocators).map Prod.snd
  | .rebuildIndexes => (CanonicalV3.rebuildIndexes crypto store workers db).map Prod.snd

/-- A call commits, or leaves the tables unchanged. -/
inductive Call (crypto : Crypto) (store : StoreConfig) (verdict : ByteArray → Outcome)
    (db : Tables) : Tables → Prop
  | aborts : Call crypto store verdict db db
  | commits {db' : Tables} (op : Operation) (workers : Workers) (hworkers : Faithful verdict workers)
      (h : op.apply crypto store workers db = .ok db') : Call crypto store verdict db db'

/-- Any number of calls. -/
abbrev Run (crypto : Crypto) (store : StoreConfig) (verdict : ByteArray → Outcome) :
    Tables → Tables → Prop := Relation.ReflTransGen (Call crypto store verdict)

theorem map_eq_ok {α β : Type} {x : Stored α} {f : α → β} {b : β} :
    x.map f = .ok b ↔ ∃ a, x = .ok a ∧ f a = b := by
  cases x with
  | error e => exact ⟨nofun, fun ⟨_, h, _⟩ => nomatch h⟩
  | ok a => exact ⟨fun h => ⟨a, rfl, Except.ok.inj h⟩,
      fun ⟨b, hb, h⟩ => congrArg Except.ok (Except.ok.inj hb ▸ h)⟩

/-- What a call does to a sound store. -/
theorem call_cases (h : Sound crypto store verdict db) (hcall : Call crypto store verdict db db') :
    db' = db ∨
    (∃ raw, Verified crypto store verdict (recordHash (recordOf crypto store raw)) raw ∧
      db.blocks.get? (recordHash (recordOf crypto store raw)) = none ∧
      db' = withBlock crypto store db raw) ∨
    (∃ tip chain, SelectedChain crypto store db tip chain ∧
      (∀ row ∈ db.finality, evidenceOf crypto store row ∈ chain) ∧
      db' = { db with canonicalChain := chain, selectedTip := tip }) ∨
    ∃ row, ValidEvidence crypto store row ∧
      evidenceOf crypto store row ∈ db.canonicalChain ∧
      row.hash ∉ db.finality.map FinalityRow.hash ∧
      db' = { db with finality := db.finality ++ [row] } := by
  cases hcall with
  | aborts => exact Or.inl rfl
  | commits op workers hworkers happly =>
    cases op with
    | insert raw =>
      obtain ⟨⟨new, db''⟩, hinsert, rfl⟩ := map_eq_ok.mp happly
      obtain ⟨hverified, ⟨-, rfl, -⟩ | ⟨-, rfl, hnew⟩⟩ := insert_cases hworkers hinsert
      · exact Or.inl rfl
      · exact Or.inr (Or.inl ⟨raw, hverified, hnew, rfl⟩)
    | selectChain tip expectedTip =>
      obtain ⟨chain, hchain, -, hkept, rfl⟩ := selectChain_cases h hworkers happly
      exact Or.inr (Or.inr (Or.inl ⟨tip, chain, hchain, hkept, rfl⟩))
    | finalize proofRaw trusted equivocators =>
      obtain ⟨⟨new, db''⟩, hfinalize, rfl⟩ := map_eq_ok.mp happly
      obtain ⟨-, rfl⟩ | ⟨-, row, hrow⟩ := finalize_cases h hworkers hfinalize
      · exact Or.inl rfl
      · exact Or.inr (Or.inr (Or.inr ⟨row, hrow⟩))
    | rebuildIndexes =>
      obtain ⟨⟨report, db''⟩, hrebuild, rfl⟩ := map_eq_ok.mp happly
      have hreads := rebuildIndexes_reads hworkers h.toAuthentic
      rw [h.restored_eq] at hreads
      exact Or.inl (congrArg Prod.snd (hreads.eq_of_ok hrebuild))

theorem sound_of_call (h : Sound crypto store verdict db)
    (hcall : Call crypto store verdict db db') : Sound crypto store verdict db' := by
  obtain rfl | ⟨raw, hverified, hnew, rfl⟩ | ⟨tip, chain, hchain, hkept, rfl⟩ |
    ⟨row, hvalid, hon, hnew, rfl⟩ := call_cases h hcall
  · exact h
  · exact sound_withBlock h hverified hnew
  · exact sound_select h hchain hkept
  · exact sound_finalize h hvalid hon hnew

theorem Sound.of_run (h : Sound crypto store verdict db)
    (hrun : Run crypto store verdict db db') : Sound crypto store verdict db' := by
  induction hrun with
  | refl => exact h
  | tail _ hcall ih => exact sound_of_call ih hcall

/-- Every store that a run reaches is sound. -/
theorem sound_of_run (hrun : Run crypto store verdict {} db) : Sound crypto store verdict db :=
  sound_empty.of_run hrun

/-! ## Finalized blocks -/

/-- The block is on the selected chain, at or below a block with evidence. -/
def IsFinal (crypto : Crypto) (store : StoreConfig) (db : Tables) (hash : String) : Prop :=
  ∃ e ∈ db.canonicalChain, e.2 = hash ∧ ∃ row ∈ db.finality, e.1 ≤ (evidenceOf crypto store row).1

theorem le_foldl_max {k x : Int} {heights : List Int} :
    k ≤ heights.foldl max x ↔ k ≤ x ∨ ∃ y ∈ heights, k ≤ y := by
  induction heights generalizing x with
  | nil => simp
  | cons y heights ih =>
    rw [List.foldl_cons, ih, le_max_iff, List.exists_mem_cons_iff, or_assoc]

/-- The boundary is the highest evidence, above the anchor. -/
theorem le_boundary {k : Int} {heights : List Int} (hk : store.anchorHeight < k) :
    k ≤ boundary store heights ↔ ∃ y ∈ heights, k ≤ y := by
  cases heights with
  | nil => simpa [boundary] using hk
  | cons x heights => rw [boundary, le_foldl_max, List.exists_mem_cons_iff]

theorem SelectedChain.anchor_lt {tip : Option String} {chain : List (Int × String)}
    (h : SelectedChain crypto store db tip chain) {e : Int × String} (he : e ∈ chain) :
    store.anchorHeight < e.1 := by
  cases tip with
  | none =>
    obtain rfl := h
    cases he
  | some tip => exact (h.2.height_bounds he).1

open Classical in
theorem Sound.isFinalized_reads (h : Sound crypto store verdict db)
    (hworkers : Faithful verdict workers) {hash : String} (hhash : isHexAfter "" 64 hash = true) :
    Reads (Available crypto store workers db) (isFinalized crypto store workers db hash)
      (decide (IsFinal crypto store db hash)) := by
  have hh64 : lift (h64 (.str hash)) = .ok hash := lift_eq_ok.mpr (pattern_eq_ok.mpr ⟨rfl, hhash⟩)
  refine Reads.bind (Reads.of_eq hh64) ((h.selected_reads hworkers).bind ?_)
  rw [proofs_eq h.evidence]
  refine Reads.of_eq (congrArg Except.ok ?_)
  rw [Bool.eq_iff_iff, List.any_eq_true, decide_eq_true_eq, IsFinal]
  simp only [decide_eq_true_eq]
  refine exists_congr fun e => and_congr_right fun he => and_congr_right fun _ => ?_
  rw [le_boundary (h.selected.anchor_lt he), List.map_map]
  simp

/-- Two chains that hold the evidence agree on what is final. -/
theorem isFinal_select (h : Sound crypto store verdict db) {hash : String} {tip : Option String}
    {chain : List (Int × String)} (hchain : SelectedChain crypto store db tip chain)
    (hkept : ∀ row ∈ db.finality, evidenceOf crypto store row ∈ chain)
    (hfinal : IsFinal crypto store db hash) :
    IsFinal crypto store { db with canonicalChain := chain, selectedTip := tip } hash := by
  obtain ⟨e, he, hash_eq, row, hrow, hle⟩ := hfinal
  have hold := h.selected
  have hon := h.finalized row hrow
  have hon' := hkept row hrow
  cases htip : db.selectedTip with
  | none =>
    rw [htip] at hold
    rw [show db.canonicalChain = [] from hold] at he
    cases he
  | some old =>
    rw [htip] at hold
    cases tip with
    | none =>
      rw [show chain = [] from hchain] at hon'
      cases hon'
    | some tip =>
      exact ⟨e, hold.2.mem_of_shared hchain.2 hon hon' he hle, hash_eq, row, hrow, hle⟩

theorem isFinal_of_call (h : Sound crypto store verdict db)
    (hcall : Call crypto store verdict db db') {hash : String}
    (hfinal : IsFinal crypto store db hash) : IsFinal crypto store db' hash := by
  obtain rfl | ⟨raw, -, -, rfl⟩ | ⟨tip, chain, hchain, hkept, rfl⟩ | ⟨row, -, -, -, rfl⟩ :=
    call_cases h hcall
  · exact hfinal
  · exact hfinal
  · exact isFinal_select h hchain hkept hfinal
  · obtain ⟨e, he, hash_eq, row', hrow, hle⟩ := hfinal
    exact ⟨e, he, hash_eq, row', List.mem_append_left _ hrow, hle⟩

theorem isFinal_of_run (h : Sound crypto store verdict db)
    (hrun : Run crypto store verdict db db') {hash : String}
    (hfinal : IsFinal crypto store db hash) : IsFinal crypto store db' hash := by
  induction hrun with
  | refl => exact hfinal
  | tail hrun hcall ih => exact isFinal_of_call (h.of_run hrun) hcall ih

end CanonicalV3

end ZoidbergChain
