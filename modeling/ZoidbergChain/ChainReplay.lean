import ZoidbergChain.BlockValidation

/-!
# Accepted chains and their replay

The validator steps the native transactions of a block over the balances of the
prior chain; the replay applies the ordinary transactions of the block first. The
two agree on every block but the last, because the validator replays the prior
chain in front of each block.

- `replays_of_validateChain`: an accepted chain replays exactly when its last block
  does (`ReplaysOn`).
- `validateChain_not_replayed`: an accepted chain that does not.
-/

namespace ZoidbergChain

open Python

variable {h : Host} {networkName : String} {c : Collaborators}

/-! ## The reward ledger -/

theorem settleMemeReward_eq_ok {rewarded rewarded' : Finset HashKey} {block : Dict}
    (hok : settleMemeReward rewarded block = .ok rewarded') :
    ∀ key, key ∈ rewarded' ↔ key ∈ rewarded ∨
      (paysMemeReward block = true ∧ (block.get "submission_id").hashKey = .ok key) := by
  unfold settleMemeReward at hok
  dsimp only at hok
  split at hok
  · next hpays =>
    simp only [bind_eq_ok, require_eq_ok, pure_eq_ok] at hok
    obtain ⟨k, hk, -, -, rfl⟩ := hok
    intro key
    simp [hpays, hk, or_comm, eq_comm]
  · next hpays =>
    cases hok
    simp [hpays]

theorem applyNativeTransaction_rewarded {s s' : ChainState} {tx : Value}
    (hok : applyNativeTransaction h networkName s tx = .ok s') :
    s'.rewardedSubmissions = s.rewardedSubmissions := by
  simp only [applyNativeTransaction, bind_eq_ok] at hok
  obtain ⟨d, -, -, -, hok⟩ := hok
  split at hok
  · simp only [bind_eq_ok, pure_eq_ok] at hok
    obtain ⟨-, -, -, -, -, -, -, -, -, -, -, -, -, -, -, -, -, -, -, -, -, -, -, -, rfl⟩ := hok
    rfl
  · cases hok

/-- A loop keeps what each of its turns keeps. -/
theorem foldlM_invariant {σ α β : Type} {f : σ → α → Py σ} {g : σ → β} {xs : List α} {s s' : σ}
    (hstep : ∀ {s s' x}, f s x = .ok s' → g s' = g s) (hok : xs.foldlM f s = .ok s') :
    g s' = g s := by
  induction xs generalizing s with
  | nil => exact congrArg g (foldlM_nil_eq_ok.mp hok).symm
  | cons x xs ih =>
    obtain ⟨m, hm, hrest⟩ := foldlM_cons_eq_ok.mp hok
    rw [ih hrest, hstep hm]

/-- What one replayed block is made of. -/
theorem applyBlock_eq_ok {s s' : ChainState} {block : Dict} :
    applyBlock h networkName s block = .ok s' ↔
      ∃ rewarded txs balances natives,
        settleMemeReward s.rewardedSubmissions block = .ok rewarded ∧
        blockTransactions block = .ok txs ∧
        txs.foldlM (applyTransaction h) s.balances = .ok balances ∧
        blockNativeTransactions block = .ok natives ∧
        natives.foldlM (applyNativeTransaction h networkName)
          { s with balances := balances, rewardedSubmissions := rewarded } = .ok s' := by
  simp only [applyBlock, bind_eq_ok]
  constructor
  · rintro ⟨rewarded, hr, txs, htxs, b, hb, natives, hn, hfold⟩
    exact ⟨rewarded, txs, b, natives, hr, htxs, hb, hn, hfold⟩
  · rintro ⟨rewarded, txs, b, natives, hr, htxs, hb, hn, hfold⟩
    exact ⟨rewarded, hr, txs, htxs, b, hb, natives, hn, hfold⟩

theorem applyBlock_rewarded {s s' : ChainState} {block : Dict}
    (hok : applyBlock h networkName s block = .ok s') :
    settleMemeReward s.rewardedSubmissions block = .ok s'.rewardedSubmissions := by
  obtain ⟨rewarded, txs, b, natives, hr, -, -, -, hfold⟩ := applyBlock_eq_ok.mp hok
  rw [foldlM_invariant applyNativeTransaction_rewarded hfold]
  exact hr

/-- A replayed chain has rewarded the submissions of its paying blocks. -/
theorem mem_rewardedSubmissions {chain : List Dict} {s : ChainState}
    (hok : calculateBalancesFromChain h networkName chain = .ok s) (key : HashKey) :
    key ∈ s.rewardedSubmissions ↔
      ∃ b ∈ chain, paysMemeReward b = true ∧ (b.get "submission_id").hashKey = .ok key := by
  induction chain using List.reverseRecOn generalizing s with
  | nil =>
    obtain rfl : ChainState.initial = s := by simpa [calculateBalancesFromChain] using hok
    simp [ChainState.initial]
  | append_singleton chain block ih =>
    obtain ⟨m, hm, hblock⟩ := calculateBalancesFromChain_append.mp hok
    rw [settleMemeReward_eq_ok (applyBlock_rewarded hblock), ih hm]
    simp only [List.mem_append, List.mem_singleton]
    constructor
    · rintro (⟨b, hb, hpays⟩ | hpays)
      · exact ⟨b, Or.inl hb, hpays⟩
      · exact ⟨block, Or.inr rfl, hpays⟩
    · rintro ⟨b, hb | rfl, hpays⟩
      · exact Or.inl ⟨b, hb, hpays⟩
      · exact Or.inr hpays

/-! ## The last block -/

/-- The last block replays over the state of the prior chain: it does not pay a meme
reward that an earlier block has paid, its ordinary transactions can be added up, and its
native transfers stay covered when they come behind the ordinary transactions. -/
structure ReplaysOn (h : Host) (networkName : String) (prior : List Dict) (s : ChainState)
    (block : Dict) : Prop where
  reward : paysMemeReward block = true → ∃ key, (block.get "submission_id").hashKey = .ok key ∧
    ∀ b ∈ prior, paysMemeReward b = true → (b.get "submission_id").hashKey ≠ .ok key
  transactions : ∃ txs b, blockTransactions block = .ok txs ∧
    txs.foldlM (applyTransaction h) s.balances = .ok b ∧
    ∀ natives fs, blockNativeTransactions block = .ok natives →
      ReadsTransfers h networkName natives fs → Covered b fs

theorem ReadsTransfers.unique {txs : List Value} {fs gs : List Transfer}
    (hf : ReadsTransfers h networkName txs fs) (hg : ReadsTransfers h networkName txs gs) :
    fs = gs := by
  induction hf generalizing gs with
  | nil => cases hg; rfl
  | cons hhead _ ih =>
    obtain _ | ⟨hhead', htail'⟩ := hg
    obtain ⟨tx, d, rfl, hd, hf⟩ := hhead
    obtain ⟨tx', d', heq, hd', hf'⟩ := hhead'
    obtain rfl := Value.dict.inj heq
    obtain rfl := Except.ok.inj (hd.symm.trans hd')
    rw [hf.unique hf', ih htail']

/-- The validator's own checks leave only `ReplaysOn` to the replay of a block. -/
theorem applyBlock_iff_replaysOn {prior : List Dict} {block : Dict} {s : ChainState}
    {natives : List Value} {fs : List Transfer}
    (hs : calculateBalancesFromChain h networkName prior = .ok s)
    (hnatives : blockNativeTransactions block = .ok natives)
    (hreads : ReadsTransfers h networkName natives fs)
    (hseq : InSequence s.seenTxIds s.nextNonces fs) :
    (∃ s', applyBlock h networkName s block = .ok s') ↔
      ReplaysOn h networkName prior s block := by
  constructor
  · rintro ⟨s', hok⟩
    obtain ⟨rewarded, txs, b, natives', hr, htxs, hb, hn, hfold⟩ := applyBlock_eq_ok.mp hok
    obtain rfl := Except.ok.inj (hnatives.symm.trans hn)
    obtain ⟨-, hcov⟩ := (applyNativeTransactions_eq_ok hreads _).mp ⟨s', hfold⟩
    refine ⟨fun hpays => ?_, txs, b, htxs, hb, fun natives'' gs hn' hreads' => ?_⟩
    · simp only [settleMemeReward, hpays, if_true, bind_eq_ok, require_eq_ok] at hr
      obtain ⟨key, hkey, -, hfresh, -⟩ := hr
      refine ⟨key, hkey, fun b hb hpays' hkey' => hfresh ?_⟩
      exact (mem_rewardedSubmissions hs key).mpr ⟨b, hb, hpays', hkey'⟩
    · obtain rfl := Except.ok.inj (hnatives.symm.trans hn')
      rw [hreads'.unique hreads]
      exact hcov
  · rintro ⟨hreward, txs, b, htxs, hb, hcov⟩
    obtain ⟨rewarded, hr⟩ : ∃ rewarded,
        settleMemeReward s.rewardedSubmissions block = .ok rewarded := by
      by_cases hpays : paysMemeReward block = true
      · obtain ⟨key, hkey, hfresh⟩ := hreward hpays
        have hnot : key ∉ s.rewardedSubmissions := by
          intro hmem
          obtain ⟨b, hb, hpays', hkey'⟩ := (mem_rewardedSubmissions hs key).mp hmem
          exact hfresh b hb hpays' hkey'
        exact ⟨_, by
          simp only [settleMemeReward, hpays, if_true, hkey, ok_bind, require_pos hnot]; rfl⟩
      · exact ⟨s.rewardedSubmissions, by simp only [settleMemeReward, hpays]; rfl⟩
    obtain ⟨s', hfold⟩ := (applyNativeTransactions_eq_ok hreads
      { s with balances := b, rewardedSubmissions := rewarded }).mpr
      ⟨hseq, hcov natives fs hnatives hreads⟩
    exact ⟨s', applyBlock_eq_ok.mpr ⟨rewarded, txs, b, natives, hr, htxs, hb, hnatives, hfold⟩⟩

/-! ## The genesis block -/

theorem GenesisRecord.get_eq_null {record : Dict} (hg : GenesisRecord record) {key : String}
    (hkey : key ∉ genesisAllowedFields) : record.get key = .null := by
  have hnone : record.get? key = none := by
    rw [Dict.get?_eq_none]
    intro hmem
    obtain ⟨e, he, rfl⟩ := List.mem_map.mp hmem
    exact hkey (hg.fields e he)
  rw [Dict.get_eq, hnone]
  rfl

theorem Value.decimal_natCast (rt : Runtime) (n : Nat) :
    (Value.int n).decimal rt = .ok (.finite n) := by
  have htext : (Value.int n).text rt = String.ofList (positional n 0) := by
    have hdigits : toString (n : Int) = String.ofList (Nat.toDigits 10 n) := by
      rw [← Nat.toString_eq_ofList_toDigits]
      rfl
    rw [Value.text, hdigits, positional, if_pos (le_refl 0)]
    simp
  rw [Value.decimal, htext, Decimal.ofString, parseDecimal_positional]
  simp [Numeral.value]

/-- Every balance is a number. -/
def FiniteBalances (balances : Mapping Decimal) : Prop :=
  ∀ key, ∃ q, Mapping.getD balances key (.finite 0) = .finite q

/-- An allocation of the genesis record is credited to its recipient. -/
theorem applyTransaction_allocation {b : Mapping Decimal} {tx : Dict} (hb : FiniteBalances b)
    (htx : IsAllocation tx) :
    ∃ b', applyTransaction h b (.dict tx) = .ok b' ∧ FiniteBalances b' := by
  obtain ⟨r, hr, hrNe⟩ := htx.recipient
  obtain ⟨a, ha⟩ := htx.amount
  obtain ⟨t, ht⟩ := htx.tip
  have htip : tx.getD "tip" (.int 0) = .int t := by rw [Dict.getD, ht]; rfl
  have htotal : transactionTotal h tx = .ok (.finite (a + t)) := by
    simp only [transactionTotal, ha, htip, Value.decimal_natCast, ok_bind, Decimal.add_finite]
  have hsender : walletOrRaw h (.str "GENESIS") = .str "GENESIS" := by
    have haddress : ∀ p, addressOfChars p "GENESIS".toList = none := by simp [addressOfChars]
    exact walletOrRaw_of_none (normalizeWalletIdentity_eq_none (by decide) haddress (by decide))
  obtain ⟨w, hw, hwNe⟩ : ∃ w, walletOrRaw h (.str r) = .str w ∧ w ≠ "" := by
    cases hnorm : normalizeWalletIdentity h.toRuntime (.str r) with
    | some w => exact ⟨w, walletOrRaw_of_some hnorm, normalizeWalletIdentity_ne_empty hnorm⟩
    | none =>
      refine ⟨r, walletOrRaw_of_none hnorm, ?_⟩
      rintro rfl
      exact hrNe rfl
  have hsystem : HashKey.str "GENESIS" ∈ systemSenders := by simp [systemSenders]
  have hkey : ∀ s, (Value.str s).hashKey = .ok (.str s) := fun _ => rfl
  have htruthy : (Value.str w).truthy = true := by simpa using hwNe
  obtain ⟨q, hq⟩ := hb (.str w)
  refine ⟨b.insert (.str w) (.finite (q + (a + t))), ?_, fun key => ?_⟩
  · simp only [applyTransaction, asTransaction, htx.sender, hr, htotal, hsender, hw, hkey,
      ok_bind, debitSender, hsystem, creditRecipient, htruthy, if_true, hq, Decimal.add_finite]
    rfl
  · by_cases hk : key = .str w
    · exact ⟨_, by rw [hk, Mapping.getD_insert_self]⟩
    · obtain ⟨p, hp⟩ := hb key
      exact ⟨p, by rw [Mapping.getD_insert_of_ne hk, hp]⟩

theorem applyTransactions_allocations {txs : List Dict} (htxs : ∀ tx ∈ txs, IsAllocation tx)
    {b : Mapping Decimal} (hb : FiniteBalances b) :
    ∃ b', (txs.map .dict).foldlM (applyTransaction h) b = .ok b' ∧ FiniteBalances b' := by
  induction txs generalizing b with
  | nil => exact ⟨b, rfl, hb⟩
  | cons tx txs ih =>
    obtain ⟨m, hm, hmFinite⟩ := applyTransaction_allocation (h := h) hb (htxs tx (by simp))
    obtain ⟨b', hb', hfinite⟩ := ih (fun tx htx => htxs tx (by simp [htx])) hmFinite
    exact ⟨b', by rw [List.map_cons, foldlM_cons_eq_ok]; exact ⟨m, hm, hb'⟩, hfinite⟩

/-- A genesis record replays from nothing. -/
theorem calculateBalancesFromChain_genesis {record : Dict} (hg : GenesisRecord record) :
    ∃ s, calculateBalancesFromChain h networkName [record] = .ok s := by
  obtain ⟨txs, htxs, halloc⟩ := hg.transactions
  obtain ⟨b, hb, -⟩ := applyTransactions_allocations (h := h) halloc (b := ∅)
    fun _ => ⟨0, by rw [Mapping.getD_empty]⟩
  have hreward : paysMemeReward record = false := by
    rw [paysMemeReward, hg.get_eq_null (by decide : "reward_type" ∉ genesisAllowedFields)]
    rfl
  have hlist : blockTransactions record = .ok (txs.map .dict) := by
    rw [blockTransactions, htxs]
    cases txs <;> rfl
  have hnative : blockNativeTransactions record = .ok [] := by
    rw [blockNativeTransactions, hg.get_eq_null
      (by decide : "native_transactions" ∉ genesisAllowedFields)]
    rfl
  have hblock : ∃ s, applyBlock h networkName .initial record = .ok s := by
    refine ⟨_, applyBlock_eq_ok.mpr ⟨∅, _, b, [], ?_, hlist, hb, hnative, rfl⟩⟩
    simp only [settleMemeReward, hreward, Bool.false_eq_true, if_false]
    rfl
  obtain ⟨s, hs⟩ := hblock
  exact ⟨s, foldlM_cons_eq_ok.mpr ⟨s, hs, rfl⟩⟩

/-! ## Replaying an accepted chain -/

/-- The last block of a chain of two or more replays over the blocks before it. -/
def LastBlockReplays (h : Host) (networkName : String) (chain : List Dict) : Prop :=
  ∀ prior block s, chain = prior ++ [block] → prior ≠ [] →
    calculateBalancesFromChain h networkName prior = .ok s → ReplaysOn h networkName prior s block

/-- The last step of `validateBlock` is the validation of the native transactions. -/
theorem validateBlock_natives {block : Dict} {priorChain : List Dict}
    (hok : validateBlock c block priorChain = .ok ()) :
    validateNativeTransactions c block priorChain = .ok () := by
  simp only [validateBlock, bind_eq_ok] at hok
  obtain ⟨-, -, -, -, -, -, -, -, hnative⟩ := hok
  exact hnative

/-- An accepted chain replays exactly when its last block replays over the rest. -/
theorem replays_of_validateChain {chain : List Dict} (hok : validateChain c chain = .ok true) :
    (∃ s, calculateBalancesFromChain c.host c.networkName chain = .ok s) ↔
      LastBlockReplays c.host c.networkName chain := by
  cases validateChain_eq_ok hok with
  | @genesis g hg =>
    have hreplays : ∃ s, calculateBalancesFromChain c.host c.networkName [g] = .ok s :=
      calculateBalancesFromChain_genesis (c.validateGenesis_record g hg)
    refine iff_of_true hreplays fun prior block s heq hne => ?_
    have hlen := congrArg List.length heq
    simp only [List.length_append, List.length_singleton] at hlen
    exact absurd (List.length_eq_zero_iff.mp (by omega)) hne
  | @extend pre previous block _ hextends =>
    obtain ⟨natives, fs, s, hnatives, hs, hreads, hseq, -⟩ :=
      validateNativeTransactions_eq_ok (by simp) (validateBlock_natives hextends.valid)
    have hstep : (∃ t, calculateBalancesFromChain c.host c.networkName
        (pre ++ [previous] ++ [block]) = .ok t) ↔
        ∃ t, applyBlock c.host c.networkName s block = .ok t := by
      constructor
      · rintro ⟨t, ht⟩
        obtain ⟨m, hm, hblock⟩ := calculateBalancesFromChain_append.mp ht
        obtain rfl := Except.ok.inj (hs.symm.trans hm)
        exact ⟨t, hblock⟩
      · rintro ⟨t, ht⟩
        exact ⟨t, calculateBalancesFromChain_append.mpr ⟨s, hs, ht⟩⟩
    rw [hstep, applyBlock_iff_replaysOn hs hnatives hreads hseq]
    constructor
    · intro hreplays prior last s' heq _ hs'
      obtain ⟨rfl, hlast⟩ := List.append_inj' heq rfl
      obtain rfl := (List.cons.inj hlast).1
      obtain rfl := Except.ok.inj (hs.symm.trans hs')
      exact hreplays
    · intro hlast
      exact hlast _ _ s rfl (by simp) hs

/-! ## An accepted chain that does not replay -/

namespace SampleNode

/-- Two admission blocks that pay the meme reward of one submission. -/
def doubleReward : List Dict :=
  [genesis, admissionBlock 1 "b1" "g", admissionBlock 2 "b2" "b1"]

/-- The node of the sample chains, on which admission starts at height 1. -/
def node : Collaborators := collaborators (.sample none none) (some ⟨1, le_refl 1⟩)

theorem validateChain_doubleReward : validateChain node doubleReward = .ok true := by
  decide +kernel

theorem replay_doubleReward :
    (calculateBalancesFromChain node.host node.networkName doubleReward).isOk = false := by
  decide +kernel

end SampleNode

/-- Acceptance does not give a replay: the admission path does not look for an earlier
reward of the submission, the replay does. -/
theorem validateChain_not_replayed :
    ¬∀ (c : Collaborators) (chain : List Dict), validateChain c chain = .ok true →
      ∃ s, calculateBalancesFromChain c.host c.networkName chain = .ok s := by
  intro hall
  obtain ⟨s, hs⟩ := hall _ _ SampleNode.validateChain_doubleReward
  have hfails := SampleNode.replay_doubleReward
  rw [hs] at hfails
  cases hfails

theorem replays_of_validateChain_doubleReward :
    (∃ s, calculateBalancesFromChain SampleNode.node.host SampleNode.node.networkName
      SampleNode.doubleReward = .ok s) ↔
      LastBlockReplays SampleNode.node.host SampleNode.node.networkName SampleNode.doubleReward :=
  replays_of_validateChain SampleNode.validateChain_doubleReward

end ZoidbergChain
