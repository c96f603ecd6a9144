import ZoidbergChain.Finality.Service

/-!
# Votes for a block

- `validateAttestation_toDict`: a checked attestation passes again, unchanged, under any
  validator set that normalizes to the same one.
- `CountedVotes`: the votes that `votesForBlock` counts are checked attestations for the
  block, of distinct validators, in the order of their addresses.
- `votesForBlock_votes`: votes of that kind are counted again, all of them.
-/

namespace ZoidbergChain

open Python

namespace Finality

variable {h : Host}

/-! ## Validator sets -/

theorem validatorAddress_eq_ok {identity : Value} {a : String}
    (ha : validatorAddress h identity = .ok a) : IsWalletAddress a :=
  NativeTransfer.isWalletAddress_of_normalize (orRaise_eq_ok.mp ha)

theorem mapM_validatorAddress {α : Type} {f : α → Value} {xs : List α} {as : List String}
    (has : xs.mapM (fun x => validatorAddress h (f x)) = .ok as) :
    ∀ a ∈ as, IsWalletAddress a := by
  induction xs generalizing as with
  | nil =>
    rw [List.mapM_nil] at has
    cases has
    exact nofun
  | cons x xs ih =>
    rw [List.mapM_cons] at has
    simp only [bind_eq_ok, pure_eq_ok] at has
    obtain ⟨a, ha, rest, hrest, rfl⟩ := has
    intro b hb
    obtain rfl | hb := List.mem_cons.mp hb
    · exact validatorAddress_eq_ok ha
    · exact ih hrest b hb

theorem mem_sortedSet {addresses : List String} {a : String} :
    a ∈ sortedSet addresses ↔ a ∈ addresses := by
  simp [sortedSet]

theorem sortedSet_nodup (addresses : List String) : (sortedSet addresses).Nodup :=
  (List.perm_insertionSort _ _).nodup_iff.mpr (List.nodup_dedup addresses)

theorem sortedSet_sortedSet (addresses : List String) :
    sortedSet (sortedSet addresses) = sortedSet addresses := by
  have hsorted : (sortedSet addresses).Pairwise (· ≤ ·) := List.pairwise_insertionSort _ _
  conv_lhs => rw [sortedSet, (sortedSet_nodup addresses).dedup, hsorted.insertionSort_eq]

/-- A normalized validator set: sorted wallet addresses without repetitions. -/
structure IsValidatorSet (validators : List String) : Prop where
  address : ∀ v ∈ validators, IsWalletAddress v
  nodup : validators.Nodup
  sorted : sortedSet validators = validators

theorem normalizeValidatorSet_eq_ok {identities : Value} {validators : List String}
    (hv : normalizeValidatorSet h identities = .ok validators) : IsValidatorSet validators := by
  have hset : ∀ {as : List String}, (∀ a ∈ as, IsWalletAddress a) → IsValidatorSet (sortedSet as) :=
    fun has => ⟨fun v hv => has v (mem_sortedSet.mp hv), sortedSet_nodup _, sortedSet_sortedSet _⟩
  unfold normalizeValidatorSet at hv
  split at hv
  · cases hv
    exact ⟨nofun, List.nodup_nil, rfl⟩
  · obtain ⟨as, has, hv⟩ := bind_eq_ok.mp hv
    cases hv
    exact hset (mapM_validatorAddress (f := id) has)
  · obtain ⟨as, has, hv⟩ := bind_eq_ok.mp hv
    cases hv
    exact hset (mapM_validatorAddress has)
  · cases hv

/-- A normalized validator set is normalized to itself. -/
theorem IsValidatorSet.normalize {validators : List String} (hv : IsValidatorSet validators) :
    normalizeValidatorSet h (.list (validators.map .str)) = .ok validators := by
  have hmap : ∀ as : List String, (∀ a ∈ as, IsWalletAddress a) →
      (as.map Value.str).mapM (validatorAddress h) = .ok as := by
    intro as has
    induction as with
    | nil => rfl
    | cons a as ih =>
      have ha : validatorAddress h (.str a) = .ok a := by
        rw [validatorAddress, NativeTransfer.normalizeWalletAddress_str (has a (by simp))]
        rfl
      simp only [List.map_cons, List.mapM_cons, ha, ih fun b hb => has b (by simp [hb]), ok_bind]
      rfl
  simp only [normalizeValidatorSet, hmap validators hv.address, ok_bind, hv.sorted]

/-! ## Attestations -/

theorem asAttestationError_eq_ok {α : Type} {x : Py α} {message : PyError → String} {a : α} :
    asAttestationError x message = .ok a ↔ x = .ok a :=
  exceptValueError_eq_ok fun _ _ => nofun

theorem height_nonneg {v : Value} {n : Int} (hn : height h v = .ok n) : 0 ≤ n := by
  unfold height at hn
  dsimp only at hn
  split at hn
  · cases hn
  · split at hn
    · cases hn
    · split at hn
      · next hc =>
        cases hn
        exact hc.1
      · cases hn

theorem height_int {n : Int} (hn : 0 ≤ n) : height h (.int n) = .ok n := by
  have htext : strip ((Value.int n).text h.toRuntime) = toString n := (parseInt_toString hn).1
  simp only [height, Value.toInt, htext, and_true, if_pos hn]

/-- A lower-cased text without outer white space is kept. -/
theorem lowerText_lowerText (v : Value) : lowerText h (.str (lowerText h v)) = lowerText h v := by
  unfold lowerText
  rw [Value.trimmed_str, h.strip_lower, Value.strip_trimmed, h.lower_lower]

theorem signatureText_eq_some {v : Value} {s : String} (hs : signatureText v = some s) :
    signatureText (.str s) = some s := by
  cases v with
  | str t =>
    rw [signatureText] at hs
    split at hs
    · cases hs
    · next hne =>
      obtain rfl := Option.some.inj hs
      rw [signatureText, strip_strip, if_neg hne]
  | _ => cases hs

/-- What a checked attestation has passed. -/
structure CheckedAttestation (h : Host) (validators : List String) (network : Value)
    (c : Attestation) : Prop where
  member : c.validatorAddress ∈ validators
  address : IsWalletAddress c.validatorAddress
  height : 0 ≤ c.blockHeight
  blockHash : lowerText h (.str c.blockHash) = c.blockHash
  network : normalizeNetworkId h network = .ok c.networkId
  signature : signatureText (.str c.signature) = some c.signature
  message : buildAttestationMessage h c.validatorAddress c.blockHeight c.blockHash c.networkId =
    .ok c.message
  signer : WalletSignatures.recoverSignedWalletAddress h c.message c.signature =
    .ok c.validatorAddress

theorem readSubject_eq_ok {d : Dict} {s : Subject} (hs : readSubject h d = .ok s) :
    (∀ v, s.validator = some v → IsWalletAddress v) ∧ 0 ≤ s.height ∧
      lowerText h (.str s.blockHash) = s.blockHash := by
  obtain ⟨n, hn, hs⟩ := bind_eq_ok.mp hs
  obtain ⟨id, -, hs⟩ := bind_eq_ok.mp hs
  obtain rfl := Except.ok.inj hs
  refine ⟨fun v hv => ?_, height_nonneg hn, lowerText_lowerText _⟩
  dsimp only at hv
  exact NativeTransfer.isWalletAddress_of_normalize hv

theorem validateAttestation_eq_ok {a vs network : Value} {c : Attestation}
    (hc : validateAttestation h a vs network = .ok c) : ∃ validators,
      normalizeValidatorSet h vs = .ok validators ∧ CheckedAttestation h validators network c := by
  obtain ⟨d, -, hc⟩ := bind_eq_ok.mp hc
  obtain ⟨validators, hvalidators, hc⟩ := bind_eq_ok.mp hc
  obtain ⟨subject, hsubject, hc⟩ := bind_eq_ok.mp hc
  obtain ⟨validator, hvalidator, hc⟩ := bind_eq_ok.mp hc
  obtain ⟨⟨⟩, hmember, hc⟩ := bind_eq_ok.mp hc
  obtain ⟨expected, hexpected, hc⟩ := bind_eq_ok.mp hc
  obtain ⟨⟨⟩, hnetwork, hc⟩ := bind_eq_ok.mp hc
  obtain ⟨⟨⟩, -, hc⟩ := bind_eq_ok.mp hc
  obtain ⟨⟨⟩, -, hc⟩ := bind_eq_ok.mp hc
  obtain ⟨signature, hsignature, hc⟩ := bind_eq_ok.mp hc
  obtain ⟨message, hmessage, hc⟩ := bind_eq_ok.mp hc
  obtain ⟨⟨⟩, -, hc⟩ := bind_eq_ok.mp hc
  obtain ⟨recovered, hrecovered, hc⟩ := bind_eq_ok.mp hc
  obtain ⟨⟨⟩, hsigner, hc⟩ := bind_eq_ok.mp hc
  obtain ⟨haddress, hheight, hhash⟩ := readSubject_eq_ok (asAttestationError_eq_ok.mp hsubject)
  obtain rfl := require_eq_ok.mp hsigner
  cases hc
  refine ⟨validators, hvalidators, require_eq_ok.mp hmember,
    haddress _ (orRaise_eq_ok.mp hvalidator), hheight, hhash, ?_,
    signatureText_eq_some (orRaise_eq_ok.mp hsignature), asAttestationError_eq_ok.mp hmessage,
    asAttestationError_eq_ok.mp hrecovered⟩
  rw [require_eq_ok.mp hnetwork]
  exact hexpected

/-- A checked attestation passes again as it is. -/
theorem CheckedAttestation.validate {validators : List String} {vs network : Value}
    {c : Attestation} (hc : CheckedAttestation h validators network c)
    (hvs : normalizeValidatorSet h vs = .ok validators) :
    validateAttestation h (.dict c.toDict) vs network = .ok c := by
  have hshape : closedDict (.dict c.toDict) attestationFields
      "Finality attestation has an invalid canonical shape." = .ok c.toDict := rfl
  have hsubject : readSubject h c.toDict = .ok
      { validator := some c.validatorAddress, height := c.blockHeight
        blockHash := c.blockHash, networkId := c.networkId } := by
    have hvalidator : NativeTransfer.normalizeWalletAddress h.toRuntime
        (c.toDict.get "validator_address") = some c.validatorAddress :=
      NativeTransfer.normalizeWalletAddress_str hc.address
    have hheight : Finality.height h (c.toDict.get "block_height") = .ok c.blockHeight :=
      height_int hc.height
    have hhash : lowerText h (c.toDict.get "block_hash") = c.blockHash := hc.blockHash
    have hnetwork : normalizeNetworkId h (c.toDict.get "network_id") = .ok c.networkId :=
      normalizeNetworkId_stable hc.network
    simp only [readSubject, hvalidator, hheight, hhash, hnetwork, ok_bind]
  have hversion : (c.toDict.get "attestation_version").pyEq (.int attestationVersion) = true ∧
      (c.toDict.get "domain").pyEq (.str attestationDomain) = true :=
    ⟨Value.pyEq_int.mpr rfl, Value.pyEq_str.mpr rfl⟩
  have hscheme : (c.toDict.get "signature_scheme").pyEq (.str signatureScheme) = true :=
    Value.pyEq_str.mpr rfl
  have hsignature : signatureText (c.toDict.get "signature") = some c.signature := hc.signature
  have hmessage : (c.toDict.get "message").pyEq (.str c.message) = true := Value.pyEq_str.mpr rfl
  have hsome : ∀ {α : Type} (a : α) e, orRaise (some a) e = .ok a := fun _ _ => rfl
  have htrue : ∀ e, require True e = .ok () := fun _ => require_pos trivial
  simp only [validateAttestation, hshape, hvs, asAttestationError_eq_ok.mpr hsubject, hsome,
    require_pos hc.member, hc.network, htrue, require_pos hversion, require_pos hscheme,
    hsignature, asAttestationError_eq_ok.mpr hc.message, require_pos hmessage,
    asAttestationError_eq_ok.mpr hc.signer, ok_bind]

/-! ## Ballots -/

/-- Every ballot is one of the checked attestations, under its validator, height and hash. -/
structure Ballots.Of (cs : List Attestation) (b : Ballots) : Prop where
  nodup : b.keys.Nodup
  ballot : ∀ e ∈ b, ∀ blockHash c, Table.get? e.2 blockHash = some c →
    c ∈ cs ∧ c.validatorAddress = e.1.1 ∧ c.blockHeight = e.1.2 ∧ c.blockHash = blockHash

theorem Ballots.Of.record {cs : List Attestation} {b : Ballots} (hb : b.Of cs) (c : Attestation) :
    (b.record c).Of (cs ++ [c]) where
  nodup := Table.keys_set_nodup hb.nodup
  ballot e he blockHash d hd := by
    have hold : ∀ e ∈ b, ∀ blockHash d, Table.get? e.2 blockHash = some d → d ∈ cs ++ [c] ∧
        d.validatorAddress = e.1.1 ∧ d.blockHeight = e.1.2 ∧ d.blockHash = blockHash := by
      intro e he blockHash d hd
      obtain ⟨hmem, hrest⟩ := hb.ballot e he blockHash d hd
      exact ⟨List.mem_append_left _ hmem, hrest⟩
    obtain rfl | he := Table.mem_set he
    · obtain ⟨rfl, rfl⟩ | ⟨-, hd⟩ := Table.get?_set_eq_some.mp hd
      · exact ⟨by simp, rfl, rfl, rfl⟩
      · cases hkey : Table.get? b (c.validatorAddress, c.blockHeight) with
        | none =>
          rw [hkey] at hd
          cases hd
        | some hashes =>
          rw [hkey] at hd
          exact hold _ (Table.mem_of_get? hkey) blockHash d hd
    · exact hold e he blockHash d hd

theorem ballots_of (cs : List Attestation) : Ballots.Of cs (cs.foldl Ballots.record []) := by
  induction cs using List.reverseRecOn with
  | nil => exact ⟨List.nodup_nil, nofun⟩
  | append_singleton cs c ih =>
    rw [List.foldl_append]
    exact ih.record c

theorem validAttestations_mem {attestations : List Value} {vs network : Value}
    {cs : List Attestation} (hcs : validAttestations h vs network attestations = .ok cs) :
    ∀ c ∈ cs, ∃ a ∈ attestations, validateAttestation h a vs network = .ok c := by
  induction attestations generalizing cs with
  | nil =>
    cases hcs
    exact nofun
  | cons a attestations ih =>
    have hrest : ∀ {cs}, validAttestations h vs network attestations = .ok cs → ∀ c ∈ cs,
        ∃ b ∈ a :: attestations, validateAttestation h b vs network = .ok c := by
      intro cs hcs c hc
      obtain ⟨b, hb, hvalid⟩ := ih hcs c hc
      exact ⟨b, List.mem_cons_of_mem a hb, hvalid⟩
    rw [validAttestations] at hcs
    split at hcs
    · next checked hchecked =>
      obtain ⟨more, hmore, hcs⟩ := bind_eq_ok.mp hcs
      cases hcs
      intro c hc
      obtain rfl | hc := List.mem_cons.mp hc
      · exact ⟨a, List.mem_cons_self .., hchecked⟩
      · exact hrest hmore c hc
    · split at hcs
      · exact hrest hcs
      · cases hcs

/-- Votes for one block: of distinct validators, in the order of their addresses. -/
structure BlockVotes (blockHeight : Int) (blockHash : String) (votes : List Attestation) :
    Prop where
  block : ∀ c ∈ votes, c.blockHeight = blockHeight ∧ c.blockHash = blockHash
  sorted : votes.Pairwise fun a b => a.validatorAddress ≤ b.validatorAddress
  nodup : (votes.map Attestation.validatorAddress).Nodup

theorem mem_votes {b : Ballots} {blockHeight : Int} {blockHash : String} {c : Attestation}
    (hc : c ∈ b.votes blockHeight blockHash) :
    ∃ e ∈ b, e.1.2 = blockHeight ∧ Table.get? e.2 blockHash = some c := by
  obtain ⟨e, he, hget⟩ := List.mem_filterMap.mp hc
  obtain ⟨he, hheight⟩ := List.mem_filter.mp he
  exact ⟨e, he, (of_decide_eq_true hheight).1, hget⟩

/-- The ballots of one height have one entry per validator. -/
theorem Ballots.Of.nodup_votes {cs : List Attestation} {b : Ballots} (hb : b.Of cs)
    (blockHeight : Int) (blockHash : String) :
    ((b.votes blockHeight blockHash).map Attestation.validatorAddress).Nodup := by
  have hentries : b.Pairwise fun e e' => e ∈ b ∧ e' ∈ b ∧ e.1 ≠ e'.1 :=
    List.Pairwise.and_mem.mp (List.pairwise_map.mp hb.nodup)
  rw [List.Nodup, List.pairwise_map, Ballots.votes, List.pairwise_filterMap,
    List.pairwise_filter]
  refine hentries.imp fun {e e'} hne hheight hheight' c hc c' hc' heq => ?_
  obtain ⟨he, he', hne⟩ := hne
  obtain ⟨-, hvalidator, -⟩ := hb.ballot e he blockHash c hc
  obtain ⟨-, hvalidator', -⟩ := hb.ballot e' he' blockHash c' hc'
  refine hne (Prod.ext ?_ ?_)
  · rw [← hvalidator, ← hvalidator', heq]
  · exact (of_decide_eq_true hheight).1.trans (of_decide_eq_true hheight').1.symm

theorem votesForBlock_eq_ok {attestations : List Value} {vs network : Value} {blockHeight : Int}
    {blockHash : String} {votes : List Attestation} {equivocations : List String}
    (hv : votesForBlock h attestations vs network blockHeight blockHash =
      .ok (votes, equivocations)) :
    (∀ c ∈ votes, ∃ a ∈ attestations, validateAttestation h a vs network = .ok c) ∧
      BlockVotes blockHeight blockHash votes := by
  obtain ⟨cs, hcs, hv⟩ := bind_eq_ok.mp hv
  cases hv
  have hb := ballots_of cs
  have hperm := List.perm_insertionSort
    (fun a b : Attestation => a.validatorAddress ≤ b.validatorAddress)
    ((cs.foldl Ballots.record []).votes blockHeight blockHash)
  have hmem : ∀ c ∈ (cs.foldl Ballots.record []).votes blockHeight blockHash,
      c ∈ cs ∧ c.blockHeight = blockHeight ∧ c.blockHash = blockHash := by
    intro c hc
    obtain ⟨e, he, hheight, hget⟩ := mem_votes hc
    obtain ⟨hcs, -, hsame, hhash⟩ := hb.ballot e he blockHash c hget
    exact ⟨hcs, hsame.trans hheight, hhash⟩
  refine ⟨fun c hc => ?_, fun c hc => ?_, ?_, ?_⟩
  · exact validAttestations_mem hcs c (hmem c (hperm.mem_iff.mp hc)).1
  · exact (hmem c (hperm.mem_iff.mp hc)).2
  · have : IsTrans Attestation fun a b => a.validatorAddress ≤ b.validatorAddress :=
      ⟨fun _ _ _ => le_trans⟩
    have : Std.Total fun a b : Attestation => a.validatorAddress ≤ b.validatorAddress :=
      ⟨fun _ _ => le_total _ _⟩
    exact List.pairwise_insertionSort _ _
  · exact (hperm.map _).nodup_iff.mpr (hb.nodup_votes blockHeight blockHash)

/-! ## Votes are counted again -/

theorem validAttestations_toDict {vs network : Value} {votes : List Attestation}
    (hvotes : ∀ c ∈ votes, validateAttestation h (.dict c.toDict) vs network = .ok c) :
    validAttestations h vs network (votes.map fun c => .dict c.toDict) = .ok votes := by
  induction votes with
  | nil => rfl
  | cons c votes ih =>
    simp only [List.map_cons, validAttestations, hvotes c (List.mem_cons_self ..),
      ih fun d hd => hvotes d (List.mem_cons_of_mem c hd), ok_bind]

/-- Votes of distinct validators are ballots of their own. -/
theorem ballots_of_votes {blockHeight : Int} {blockHash : String} {b : Ballots}
    {votes : List Attestation} (hvotes : BlockVotes blockHeight blockHash votes)
    (hb : ∀ c ∈ votes, (c.validatorAddress, blockHeight) ∉ b.keys) :
    votes.foldl Ballots.record b =
      b ++ votes.map fun c => ((c.validatorAddress, blockHeight), [(blockHash, c)]) := by
  induction votes generalizing b with
  | nil => simp
  | cons c votes ih =>
    obtain ⟨hheight, hhash⟩ := hvotes.block c (List.mem_cons_self ..)
    obtain ⟨hhead, hnodup⟩ := List.nodup_cons.mp hvotes.nodup
    have hfresh := hb c (List.mem_cons_self ..)
    have hrecord : b.record c = b ++ [((c.validatorAddress, blockHeight), [(blockHash, c)])] := by
      rw [Ballots.record, hheight, hhash, Table.get?_eq_none.mpr hfresh,
        Table.set_of_notMem hfresh]
      rfl
    rw [List.foldl_cons, hrecord, ih ⟨fun d hd => hvotes.block d (List.mem_cons_of_mem c hd),
      (List.pairwise_cons.mp hvotes.sorted).2, hnodup⟩ ?_, List.append_assoc]
    · rfl
    · intro d hd hmem
      rw [Table.keys, List.map_append, List.mem_append] at hmem
      obtain hmem | hmem := hmem
      · exact hb d (List.mem_cons_of_mem c hd) hmem
      · have hsame : d.validatorAddress = c.validatorAddress := by simpa using hmem
        exact hhead (hsame ▸ List.mem_map_of_mem hd)

theorem votesForBlock_votes {vs network : Value} {blockHeight : Int} {blockHash : String}
    {votes : List Attestation} (hvotes : BlockVotes blockHeight blockHash votes)
    (hvalid : ∀ c ∈ votes, validateAttestation h (.dict c.toDict) vs network = .ok c) :
    votesForBlock h (votes.map fun c => .dict c.toDict) vs network blockHeight blockHash =
      .ok (votes, []) := by
  have hballots := ballots_of_votes (b := []) hvotes fun c _ => List.not_mem_nil
  rw [List.nil_append] at hballots
  have hequivocations : Ballots.equivocations (votes.map fun c =>
      ((c.validatorAddress, blockHeight), [(blockHash, c)])) blockHeight = [] := by
    rw [Ballots.equivocations, List.map_eq_nil_iff, List.filter_eq_nil_iff]
    intro e he
    obtain ⟨c, -, rfl⟩ := List.mem_map.mp he
    simp
  have hcounted : Ballots.votes (votes.map fun c =>
      ((c.validatorAddress, blockHeight), [(blockHash, c)])) blockHeight blockHash = votes := by
    rw [Ballots.votes, hequivocations, List.filter_map, List.filterMap_map]
    have hall : votes.filter ((fun e : (String × Int) × Table String Attestation =>
        decide (e.1.2 = blockHeight ∧ e.1.1 ∉ ([] : List String))) ∘ fun c =>
          ((c.validatorAddress, blockHeight), [(blockHash, c)])) = votes := by
      rw [List.filter_eq_self]
      intro c hc
      simp
    rw [hall]
    conv_rhs => rw [← List.filterMap_some (l := votes)]
    refine List.filterMap_congr fun c _ => ?_
    simp [Table.get?]
  simp only [votesForBlock, validAttestations_toDict hvalid, ok_bind, hballots, hequivocations,
    hcounted, hvotes.sorted.insertionSort_eq]

end Finality

end ZoidbergChain
