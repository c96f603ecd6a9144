import ZoidbergChain.Block
import ZoidbergChain.NativeLedger
import ZoidbergChain.Scan.Walk

/-!
# The branch point of a reorganization (canonical_reorg_service.py:59–111)

`branchDelta` walks from the winning tip to the first block that the old chain has, and from the
old tip back to that block, along the previous hashes.

- `branchDelta_stops`: whatever the two lists are, both walks end.
- `branchDelta_branchLaw`: on linked chains the result is the branch point, unless there is none
  or the two chains disagree on its height.
-/

namespace ZoidbergChain.CanonicalReorg

open Python

/-! ## The model -/

/-- `ChainBranchDelta`. -/
structure ChainBranchDelta where
  commonAncestorHeight : Int
  commonAncestorHash : String
  detachedBlocks : List Dict
  attachedBlocks : List Dict
  deriving DecidableEq

/-- `CanonicalReorgError(message)`. -/
def reorgError (message : String) : PyError := { exc := .runtimeError, message }

/-- `_block_dict`: a block is an object or a dictionary. -/
def blockDict : Block ⊕ Dict → Dict := Sum.elim Block.toDict id

section Model

variable (h : Host)

/-- `_hash`. -/
def blockHash (block : Dict) : String := loweredText h (block.get "hash")

/-- `str(block.get("previous_hash") or "").strip().lower()`. -/
def previousHash (block : Dict) : String := loweredText h (block.get "previous_hash")

/-- `_height`. -/
def blockHeight (block : Dict) : Py Int :=
  match (block.get "index").toInt with
  | .ok n => .ok n
  | .error e =>
    .error (if e.exc = .typeError ∨ e.isValueError then
      reorgError "Canonical branch contains an invalid block height." else e)

/-- `{cls._hash(block): block for block in blocks}.get(key)`: the last block of a hash. -/
def byHash (blocks : List Dict) (key : String) : Option Dict :=
  blocks.reverse.find? fun block => blockHash h block = key

/-- Every block has a hash of its own. -/
def HashesApart (blocks : List Dict) : Prop :=
  "" ∉ blocks.map (blockHash h) ∧ (blocks.map (blockHash h)).dedup.length = blocks.length

instance (blocks : List Dict) : Decidable (HashesApart h blocks) :=
  inferInstanceAs (Decidable (_ ∧ _))

/-- The checks before the walks, and the tips. -/
def checkedTips (old new : List Dict) : Py (Dict × Dict) :=
  match old.getLast?, new.getLast? with
  | some oldTip, some newTip => do
    require (HashesApart h old)
      (reorgError "Old canonical chain has missing or duplicate block hashes.")
    require (HashesApart h new)
      (reorgError "Winning canonical chain has missing or duplicate block hashes.")
    return (oldTip, newTip)
  | _, _ =>
    .error (reorgError "Canonical replacement requires non-empty old and winning chains.")

/-- One of the two `while` loops: from a tip along the previous hashes to the goal. The visited
hashes are those of the blocks passed. -/
def lineage (blocks : List Dict) (goal : String → Bool) (fuel : Nat) (tip : Dict) :
    Option (Scan.WalkEnd Dict) :=
  Scan.walk (blockHash h) (fun block => goal (blockHash h block))
    (fun block => byHash h blocks (previousHash h block)) fuel [] tip

/-- What is raised where a walk does not reach its goal. -/
def arrival (cycle lost : String) : Scan.WalkEnd Dict → Py (List Dict × Dict)
  | .arrived passed goal => .ok (passed, goal)
  | .cycle => .error (reorgError cycle)
  | .lost => .error (reorgError lost)

/-- `attached_reverse` in chain order, and the block of the old chain that was met. -/
def attach (old : List Dict) (ended : Scan.WalkEnd Dict) : Py (List Dict × Dict) := do
  let (attached, cursor) ← arrival "Winning branch previous-hash lineage contains a cycle."
    "Winning branch has no hash-linked common ancestor with the old chain." ended
  let ancestor ← orRaise (byHash h old (blockHash h cursor))
    { exc := .keyError, message := blockHash h cursor }
  let height ← blockHeight ancestor
  let cursorHeight ← blockHeight cursor
  require (height = cursorHeight)
    (reorgError "Common ancestor hash appears at conflicting block heights.")
  return (attached, ancestor)

/-- The result, from the end of the walk back to the ancestor. -/
def detach (attached : List Dict) (ancestor : Dict) (ended : Scan.WalkEnd Dict) :
    Py ChainBranchDelta := do
  let (detached, _) ← arrival "Old branch previous-hash lineage contains a cycle."
    "Old branch does not link back to the common ancestor." ended
  let height ← blockHeight ancestor
  return ⟨height, blockHash h ancestor, detached, attached⟩

/-- `branch_delta`; nothing while a walk still goes on after so many steps. -/
def branchDelta (fuel : Nat) (oldChain winningChain : List (Block ⊕ Dict)) :
    Option (Py ChainBranchDelta) :=
  let old := oldChain.map blockDict
  let new := winningChain.map blockDict
  match checkedTips h old new with
  | .error e => some (.error e)
  | .ok (oldTip, newTip) =>
    match lineage h new (fun key => key ∈ old.map (blockHash h)) fuel newTip with
    | none => none
    | some ended =>
      match attach h old ended with
      | .error e => some (.error e)
      | .ok (attached, ancestor) =>
        (lineage h old (fun key => key = blockHash h ancestor) fuel oldTip).map
          (detach h attached ancestor)

end Model

/-! ## The walks end -/

variable {h : Host}

theorem hash_of_byHash {blocks : List Dict} {key : String} {block : Dict}
    (hfound : byHash h blocks key = some block) : block ∈ blocks ∧ blockHash h block = key := by
  unfold byHash at hfound
  have hmem := List.mem_of_find?_eq_some hfound
  have hkey := List.find?_some hfound
  exact ⟨List.mem_reverse.mp hmem, of_decide_eq_true hkey⟩

theorem HashesApart.nodup {blocks : List Dict} (hapart : HashesApart h blocks) :
    (blocks.map (blockHash h)).Nodup := by
  have hlength : (blocks.map (blockHash h)).dedup.length = (blocks.map (blockHash h)).length := by
    rw [hapart.2, List.length_map]
  rw [← (List.dedup_sublist _).eq_of_length hlength]
  exact List.nodup_dedup _

theorem byHash_of_mem {blocks : List Dict} {block : Dict} (hapart : HashesApart h blocks)
    (hmem : block ∈ blocks) : byHash h blocks (blockHash h block) = some block := by
  have hsome : (byHash h blocks (blockHash h block)).isSome := by
    unfold byHash
    rw [List.find?_isSome]
    exact ⟨block, List.mem_reverse.mpr hmem, decide_eq_true rfl⟩
  obtain ⟨found, hfound⟩ := Option.isSome_iff_exists.mp hsome
  obtain ⟨hfoundMem, hhash⟩ := hash_of_byHash hfound
  rw [hfound, List.inj_on_of_nodup_map hapart.nodup hfoundMem hmem hhash]

theorem lineage_stops {blocks : List Dict} (goal : String → Bool) {tip : Dict} {fuel : Nat}
    (htip : tip ∈ blocks) (hfuel : blocks.length < fuel) :
    lineage h blocks goal fuel tip ≠ none := by
  refine Scan.walk_stops (blocks.map (blockHash h)) (fun x y hstep => ?_) List.nodup_nil
    (List.nil_subset _) (List.mem_map_of_mem htip) (by simpa using hfuel)
  exact List.mem_map_of_mem (hash_of_byHash hstep).1

theorem checkedTips_mem {old new : List Dict} {oldTip newTip : Dict}
    (hok : checkedTips h old new = .ok (oldTip, newTip)) :
    HashesApart h old ∧ HashesApart h new ∧ old.getLast? = some oldTip ∧
      new.getLast? = some newTip := by
  unfold checkedTips at hok
  split at hok
  · next hold hnew =>
    simp only [bind_eq_ok, require_eq_ok, pure_eq_ok, Prod.mk.injEq] at hok
    obtain ⟨-, hapart, -, hapart', rfl, rfl⟩ := hok
    exact ⟨hapart, hapart', hold, hnew⟩
  · cases hok

/-- Both walks end, for every two lists of blocks. -/
theorem branchDelta_stops (oldChain winningChain : List (Block ⊕ Dict)) :
    ∃ r, ∀ fuel, oldChain.length + winningChain.length < fuel →
      branchDelta h fuel oldChain winningChain = some r := by
  unfold branchDelta
  dsimp only
  cases hchecked : checkedTips h (oldChain.map blockDict) (winningChain.map blockDict) with
  | error e => exact ⟨_, fun _ _ => rfl⟩
  | ok tips =>
    obtain ⟨oldTip, newTip⟩ := tips
    obtain ⟨-, -, holdTip, hnewTip⟩ := checkedTips_mem hchecked
    have hold := List.mem_of_getLast? holdTip
    have hnew := List.mem_of_getLast? hnewTip
    have hends : ∀ {chain : List (Block ⊕ Dict)} (goal : String → Bool) {tip : Dict},
        tip ∈ chain.map blockDict → chain.length ≤ oldChain.length + winningChain.length →
        ∃ ended, ∀ fuel, oldChain.length + winningChain.length < fuel →
          lineage h (chain.map blockDict) goal fuel tip = some ended := by
      intro chain goal tip htip hlength
      obtain ⟨ended, hended⟩ := Option.ne_none_iff_exists'.mp (lineage_stops (h := h) goal htip
        (show _ < oldChain.length + winningChain.length + 1 by rw [List.length_map]; omega))
      exact ⟨ended, fun fuel hfuel => Scan.walk_mono hfuel hended⟩
    obtain ⟨ended, hended⟩ :=
      hends (fun key => key ∈ (oldChain.map blockDict).map (blockHash h)) hnew (by omega)
    cases hattach : attach h (oldChain.map blockDict) ended with
    | error e =>
      refine ⟨.error e, fun fuel hfuel => ?_⟩
      dsimp only
      rw [hended fuel hfuel]
      dsimp only
      rw [hattach]
    | ok met =>
      obtain ⟨ended', hended'⟩ :=
        hends (fun key => key = blockHash h met.2) hold (by omega)
      refine ⟨detach h met.1 met.2 ended', fun fuel hfuel => ?_⟩
      dsimp only
      rw [hended fuel hfuel]
      dsimp only
      rw [hattach]
      dsimp only
      rw [hended' fuel hfuel]
      rfl

/-! ## Linked chains -/

section Law

variable (h : Host)

/-- Every block states the hash of the block before it. -/
def HashLinked (blocks : List Dict) : Prop :=
  blocks.IsChain fun before block => previousHash h block = blockHash h before

/-- Blocks of one hash state one previous hash, and the winning chain does not start on top of a
block of the old chain. -/
structure SharedLineage (old new : List Dict) : Prop where
  previous : ∀ block ∈ old, ∀ block' ∈ new, blockHash h block = blockHash h block' →
    previousHash h block = previousHash h block'
  first : ∀ block, new.head? = some block → previousHash h block ∉ old.map (blockHash h)

/-- Where the two chains part: the last block of the winning chain that the old chain has too,
and what each chain holds after it. -/
structure BranchPoint (old new : List Dict) (ancestor cursor : Dict)
    (detached attached : List Dict) : Prop where
  old_eq : ∃ before, old = before ++ ancestor :: detached
  new_eq : ∃ before, new = before ++ cursor :: attached
  hash_eq : blockHash h ancestor = blockHash h cursor
  attached_apart : ∀ block ∈ attached, blockHash h block ∉ old.map (blockHash h)

/-- What is raised when the lineage of the winning tip leaves the winning chain or returns to
itself. -/
def apartMessages : List String :=
  ["Winning branch previous-hash lineage contains a cycle.",
    "Winning branch has no hash-linked common ancestor with the old chain."]

/-- The results of `branch_delta` on linked chains. -/
inductive BranchLaw (old new : List Dict) : Py ChainBranchDelta → Prop where
  | apart (hapart : ∀ block ∈ new, blockHash h block ∉ old.map (blockHash h)) (message : String)
      (hmessage : message ∈ apartMessages) : BranchLaw old new (.error (reorgError message))
  | conflict {ancestor cursor : Dict} {detached attached : List Dict}
      (point : BranchPoint h old new ancestor cursor detached attached)
      (hheights : ∀ n, blockHeight ancestor = .ok n → blockHeight cursor ≠ .ok n) (e : PyError) :
      BranchLaw old new (.error e)
  | parted {ancestor cursor : Dict} {detached attached : List Dict}
      (point : BranchPoint h old new ancestor cursor detached attached) {n : Int}
      (hheight : blockHeight ancestor = .ok n) (hheight' : blockHeight cursor = .ok n) :
      BranchLaw old new (.ok ⟨n, blockHash h ancestor, detached, attached⟩)

end Law

/-- Where no block of the winning chain links into the old chain, the branch point is the last
common block of the old chain too. -/
theorem BranchPoint.detached_apart {old new : List Dict} {ancestor cursor : Dict}
    {detached attached : List Dict}
    (point : BranchPoint h old new ancestor cursor detached attached)
    (hold : HashLinked h old) (hnew : HashLinked h new) (hapart : HashesApart h new)
    (hshared : SharedLineage h old new) :
    ∀ block ∈ detached, blockHash h block ∉ new.map (blockHash h) := by
  obtain ⟨before, rfl⟩ := point.old_eq
  obtain ⟨before', hnewEq⟩ := point.new_eq
  -- what follows a block in the winning chain, when it has the hash of `x`, is not in the old one
  have hrest : ∀ (blocks : List Dict) (x : Dict),
      x ∈ before ++ ancestor :: detached → blocks ⊆ before ++ ancestor :: detached →
      HashLinked h (x :: blocks) →
      (∀ (i : Nat) (hi : i + 1 < new.length), blockHash h new[i] = blockHash h x →
        blockHash h new[i + 1] ∉ (before ++ ancestor :: detached).map (blockHash h)) →
      ∀ block ∈ blocks, blockHash h block ∉ new.map (blockHash h) := by
    intro blocks
    induction blocks with
    | nil =>
      intro x _ _ _ _ block hblock
      cases hblock
    | cons d blocks ih =>
      intro x hx hsub hlinked hnext
      have hd : d ∈ before ++ ancestor :: detached := hsub List.mem_cons_self
      have hlink : previousHash h d = blockHash h x := hlinked.rel
      have hdApart : blockHash h d ∉ new.map (blockHash h) := by
        intro hmem
        obtain ⟨w, hw, hhash⟩ := List.mem_map.mp hmem
        obtain ⟨i, hi, rfl⟩ := List.getElem_of_mem hw
        have hprevious : previousHash h new[i] = blockHash h x := by
          rw [← hshared.previous d hd _ hw hhash.symm, hlink]
        cases i with
        | zero =>
          have hhead : new.head? = some new[0] := by
            rw [List.head?_eq_getElem?, List.getElem?_eq_getElem hi]
          refine hshared.first new[0] hhead ?_
          rw [hprevious]
          exact List.mem_map_of_mem hx
        | succ i =>
          have hstep := List.isChain_iff_getElem.mp hnew i hi
          refine hnext i hi (hstep.symm.trans hprevious) ?_
          rw [hhash]
          exact List.mem_map_of_mem hd
      refine List.forall_mem_cons.mpr ⟨hdApart, ih d hd (fun y hy => hsub (by simp [hy]))
        hlinked.tail fun i hi hhash => absurd ?_ hdApart⟩
      rw [← hhash]
      exact List.mem_map_of_mem (List.getElem_mem _)
  refine hrest detached ancestor (by simp) (fun y hy => by simp [hy])
    (List.IsChain.right_of_append hold) fun i hi hhash => ?_
  -- only the cursor has the hash of the ancestor
  subst hnewEq
  have hi' : i < (before' ++ cursor :: attached).length := by omega
  have hcursor : before'.length < (before' ++ cursor :: attached).length := by simp
  have hindex : i = before'.length := by
    have hiMap : i < ((before' ++ cursor :: attached).map (blockHash h)).length := by
      simpa using hi'
    have hcursorMap :
        before'.length < ((before' ++ cursor :: attached).map (blockHash h)).length := by simp
    have hsame : ((before' ++ cursor :: attached).map (blockHash h))[i] =
        ((before' ++ cursor :: attached).map (blockHash h))[before'.length] := by
      rw [List.getElem_map, List.getElem_map, hhash, point.hash_eq,
        List.getElem_append_right le_rfl]
      simp
    exact (List.Nodup.getElem_inj_iff hapart.nodup).mp hsame
  subst hindex
  refine point.attached_apart _ ?_
  rw [List.getElem_append_right (by omega)]
  simp

/-- In a linked chain a walk from the tip passes what stands after the last goal. -/
theorem lineage_linked {blocks before after : List Dict} {x tip : Dict} {goal : String → Bool}
    {fuel : Nat} (hapart : HashesApart h blocks) (hlinked : HashLinked h blocks)
    (hsplit : blocks = before ++ x :: after) (htip : blocks.getLast? = some tip)
    (hgoal : goal (blockHash h x) = true) (hafter : ∀ y ∈ after, goal (blockHash h y) = false)
    (hfuel : blocks.length < fuel) :
    lineage h blocks goal fuel tip = some (.arrived after x) := by
  have hchain : (x :: after).IsChain fun a b => byHash h blocks (previousHash h b) = some a := by
    have hlinked' : (x :: after).IsChain fun a b => previousHash h b = blockHash h a :=
      List.IsChain.right_of_append (hsplit ▸ hlinked)
    refine hlinked'.imp_of_mem_imp fun a b ha _ hab => ?_
    rw [hab]
    refine byHash_of_mem hapart ?_
    rw [hsplit]
    exact List.mem_append_right _ ha
  have hnodup : ((after ++ []).map (blockHash h)).Nodup := by
    have hall := hapart.nodup
    rw [hsplit, List.map_append, List.map_cons] at hall
    rw [List.append_nil]
    exact (List.nodup_cons.mp (List.Nodup.of_append_right hall)).2
  have hlast : (x :: after).getLast? = some tip := by
    rw [hsplit, List.getLast?_append] at htip
    simpa [List.getLast?_cons] using htip
  have hlength : after.length < fuel := by
    rw [hsplit, List.length_append, List.length_cons] at hfuel
    omega
  have hwalk : lineage h blocks goal fuel tip = some (.arrived (after ++ []) x) :=
    Scan.walk_linked hchain hlast hgoal hafter hnodup hlength
  rwa [List.append_nil] at hwalk

/-- On linked chains `branch_delta` finds the branch point, or raises where there is none or its
height is in doubt. -/
theorem branchDelta_branchLaw {oldChain winningChain : List (Block ⊕ Dict)}
    {r : Py ChainBranchDelta} {fuel : Nat} (hold : HashLinked h (oldChain.map blockDict))
    (hnew : HashLinked h (winningChain.map blockDict))
    (holdApart : HashesApart h (oldChain.map blockDict))
    (hnewApart : HashesApart h (winningChain.map blockDict)) (holdNe : oldChain ≠ [])
    (hnewNe : winningChain ≠ []) (hfuel : oldChain.length + winningChain.length < fuel)
    (hr : branchDelta h fuel oldChain winningChain = some r) :
    BranchLaw h (oldChain.map blockDict) (winningChain.map blockDict) r := by
  have holdLength : (oldChain.map blockDict).length < fuel := by rw [List.length_map]; omega
  have hnewLength : (winningChain.map blockDict).length < fuel := by rw [List.length_map]; omega
  have holdNe' : oldChain.map blockDict ≠ [] := by simpa using holdNe
  have hnewNe' : winningChain.map blockDict ≠ [] := by simpa using hnewNe
  unfold branchDelta at hr
  dsimp only at hr
  generalize oldChain.map blockDict = old at *
  generalize winningChain.map blockDict = new at *
  have holdTip := List.getLast?_eq_some_getLast holdNe'
  have hnewTip := List.getLast?_eq_some_getLast hnewNe'
  generalize old.getLast holdNe' = oldTip at holdTip
  generalize new.getLast hnewNe' = newTip at hnewTip
  have hchecked : checkedTips h old new = .ok (oldTip, newTip) := by
    unfold checkedTips
    rw [holdTip, hnewTip]
    dsimp only
    rw [require_pos holdApart, ok_bind, require_pos hnewApart]
    rfl
  rw [hchecked] at hr
  dsimp only at hr
  by_cases hmeets : ∃ block ∈ new, decide (blockHash h block ∈ old.map (blockHash h)) = true
  · -- the winning walk stops at the last common block
    obtain ⟨before, cursor, attached, hsplit, hgoal, hattached⟩ := Scan.exists_last_goal hmeets
    rw [lineage_linked hnewApart hnew hsplit hnewTip hgoal hattached hnewLength] at hr
    dsimp only at hr
    obtain ⟨ancestor, hancestor, hhash⟩ := List.mem_map.mp (of_decide_eq_true hgoal)
    obtain ⟨before', detached, holdEq⟩ := List.append_of_mem hancestor
    have hpoint : BranchPoint h old new ancestor cursor detached attached :=
      ⟨⟨before', holdEq⟩, ⟨before, hsplit⟩, hhash, fun b hb => of_decide_eq_false (hattached b hb)⟩
    have hfound : byHash h old (blockHash h cursor) = some ancestor := by
      rw [← hhash]
      exact byHash_of_mem holdApart hancestor
    cases hattach : attach h old (.arrived attached cursor) with
    | error e =>
      rw [hattach] at hr
      obtain rfl := Option.some.inj hr
      refine .conflict hpoint (fun n hn hn' => ?_) e
      unfold attach arrival orRaise at hattach
      simp only [ok_bind, hfound, hn, hn', require_pos] at hattach
      cases hattach
    | ok met =>
      simp only [attach, arrival, hfound, ok_bind, orRaise, bind_eq_ok, require_eq_ok,
        pure_eq_ok] at hattach
      obtain ⟨n, hn, _, hn', _, rfl, rfl⟩ := hattach
      have hmet : attach h old (.arrived attached cursor) = .ok (attached, ancestor) := by
        unfold attach arrival orRaise
        simp only [ok_bind, hfound, hn, hn', require_pos]
        rfl
      have hdetached : ∀ y ∈ detached, decide (blockHash h y = blockHash h ancestor) = false := by
        intro y hy
        have hnodup := holdApart.nodup
        rw [holdEq, List.map_append, List.map_cons] at hnodup
        have hfresh := (List.nodup_cons.mp (List.Nodup.of_append_right hnodup)).1
        refine decide_eq_false fun hyEq => hfresh ?_
        rw [← hyEq]
        exact List.mem_map_of_mem hy
      rw [hmet] at hr
      dsimp only at hr
      rw [lineage_linked holdApart hold holdEq holdTip (decide_eq_true rfl) hdetached holdLength]
        at hr
      obtain rfl := Option.some.inj hr
      unfold detach arrival
      simp only [ok_bind, hn]
      exact .parted hpoint hn hn'
  · -- the winning walk meets no common block
    cases hlineage : lineage h new (fun key => key ∈ old.map (blockHash h)) fuel newTip with
    | none => exact absurd hlineage (lineage_stops _ (List.mem_of_getLast? hnewTip) hnewLength)
    | some ended =>
      rw [hlineage] at hr
      have hapart : ∀ block ∈ new, blockHash h block ∉ old.map (blockHash h) := fun b hb hmem =>
        hmeets ⟨b, hb, decide_eq_true hmem⟩
      cases ended with
      | arrived passed goal =>
        obtain ⟨hgoal, hmem⟩ := Scan.walk_arrived (P := (· ∈ new))
          (fun x y _ hstep => (hash_of_byHash hstep).1) (List.mem_of_getLast? hnewTip) hlineage
        exact absurd ⟨goal, hmem, hgoal⟩ hmeets
      | cycle =>
        obtain rfl := Option.some.inj hr
        exact .apart hapart _ (by simp [apartMessages])
      | lost =>
        obtain rfl := Option.some.inj hr
        exact .apart hapart _ (by simp [apartMessages])

/-- The branch point of two chains of blocks: `branch_delta` ends on every two lists, and on
linked chains it follows the law. -/
theorem branchDelta_law (h : Host) (oldChain winningChain : List (Block ⊕ Dict)) :
    ∃ r, (∀ fuel, oldChain.length + winningChain.length < fuel →
        branchDelta h fuel oldChain winningChain = some r) ∧
      (HashLinked h (oldChain.map blockDict) → HashLinked h (winningChain.map blockDict) →
        HashesApart h (oldChain.map blockDict) → HashesApart h (winningChain.map blockDict) →
        oldChain ≠ [] → winningChain ≠ [] →
        BranchLaw h (oldChain.map blockDict) (winningChain.map blockDict) r ∧
          ∀ delta, r = .ok delta →
            SharedLineage h (oldChain.map blockDict) (winningChain.map blockDict) →
            ∀ block ∈ delta.detachedBlocks,
              blockHash h block ∉ (winningChain.map blockDict).map (blockHash h)) := by
  obtain ⟨r, hr⟩ := branchDelta_stops (h := h) oldChain winningChain
  refine ⟨r, hr, fun hold hnew holdApart hnewApart holdNe hnewNe => ?_⟩
  have hlaw := branchDelta_branchLaw hold hnew holdApart hnewApart holdNe hnewNe
    (Nat.lt_succ_self _) (hr _ (Nat.lt_succ_self _))
  refine ⟨hlaw, ?_⟩
  rintro delta rfl hshared
  cases hlaw with
  | parted point => exact point.detached_apart hold hnew hnewApart hshared

namespace SampleBranch

def node : Host := .sample none none

def block (hash previousHash : String) (index : Int) : Block ⊕ Dict :=
  .inr [("hash", .str hash), ("previous_hash", .str previousHash), ("index", .int index)]

end SampleBranch

/-- A block that both chains have at different heights is met and refused. -/
theorem branchDelta_conflicting_heights :
    ¬∀ (h : Host) (oldChain winningChain : List (Block ⊕ Dict)) (fuel : Nat)
      (r : Py ChainBranchDelta), HashLinked h (oldChain.map blockDict) →
      HashLinked h (winningChain.map blockDict) → HashesApart h (oldChain.map blockDict) →
      HashesApart h (winningChain.map blockDict) → oldChain ≠ [] → winningChain ≠ [] →
      branchDelta h fuel oldChain winningChain = some r →
      (∀ block ∈ winningChain.map blockDict,
        blockHash h block ∉ (oldChain.map blockDict).map (blockHash h)) ∨
        ∃ delta, r = .ok delta := by
  intro hall
  have hlaw := hall SampleBranch.node [SampleBranch.block "a" "0" 0] [SampleBranch.block "a" "0" 1]
    3 (.error (reorgError "Common ancestor hash appears at conflicting block heights."))
    (List.isChain_singleton _) (List.isChain_singleton _) (by decide +kernel) (by decide +kernel)
    (by simp) (by simp) (by decide +kernel)
  obtain happart | ⟨delta, hdelta⟩ := hlaw
  · exact happart _ List.mem_cons_self (by decide +kernel)
  · cases hdelta

/-- One block is detached and two are attached. -/
theorem branchDelta_law_sample :
    ∃ r, branchDelta SampleBranch.node 6
        [SampleBranch.block "a" "0" 0, SampleBranch.block "b" "a" 1]
        [SampleBranch.block "a" "0" 0, SampleBranch.block "c" "a" 1,
          SampleBranch.block "d" "c" 2] = some r ∧
      BranchLaw SampleBranch.node
        ([SampleBranch.block "a" "0" 0, SampleBranch.block "b" "a" 1].map blockDict)
        ([SampleBranch.block "a" "0" 0, SampleBranch.block "c" "a" 1,
          SampleBranch.block "d" "c" 2].map blockDict) r := by
  obtain ⟨r, hr, hlaw⟩ := branchDelta_law SampleBranch.node
    [SampleBranch.block "a" "0" 0, SampleBranch.block "b" "a" 1]
    [SampleBranch.block "a" "0" 0, SampleBranch.block "c" "a" 1, SampleBranch.block "d" "c" 2]
  refine ⟨r, hr 6 (by decide), (hlaw ?_ ?_ ?_ ?_ ?_ ?_).1⟩
  · exact List.isChain_pair.mpr (by decide +kernel)
  · refine List.IsChain.cons_cons (by decide +kernel) (List.isChain_pair.mpr (by decide +kernel))
  · decide +kernel
  · decide +kernel
  · simp
  · simp

end ZoidbergChain.CanonicalReorg
