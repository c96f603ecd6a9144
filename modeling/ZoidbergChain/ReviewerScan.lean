import ZoidbergChain.ReviewerHistory
import ZoidbergChain.ReviewerIndex
import ZoidbergChain.Scan.FirstReach

/-!
# The reviewer index agrees with the plain scan

Over a chain of well-formed blocks, `qualification_snapshot` records for every wallet
the least height at which `qualification` is positive, and `status_at_reference` from
that height is the one from the chain.

- `activityUpTo`: what `_canonical_activity` collects of a wallet, height by height.
- `Matches`: the state of a wallet in the traversal summarizes its activity.
- `Indexed`: with the readiness heights, the invariant of the traversal.
-/

namespace ZoidbergChain

open Python

variable {rt : Runtime}

/-- A chain of `Block` objects with height `i` at position `i`. The constructor
computes a missing hash and stores the native transactions as a list. -/
structure CanonicalChain (chain : List Dict) : Prop where
  height : ∀ i (hi : i < chain.length), blockIndex chain[i] = .ok i
  hash : ∀ block ∈ chain, (block.get "hash").truthy = true
  transactions : ∀ block ∈ chain, ∃ txs, (block.get "native_transactions").listOrEmpty = .ok txs

/-- The finalized head of a block of the chain. -/
def headOf (rt : Runtime) (chain : List Dict) (k : Int) : FinalizedHead where
  blockHeight := k
  blockHash := blockHashText rt (chain[k.toNat]?.getD [])

/-- `qualification` over the chain with the reference at height `k`, for its verdict. -/
def qualifiedAt (rt : Runtime) (address : String) (chain : List Dict) (k : Int) : Py Bool := do
  return (← qualification rt address chain (headOf rt chain k)
    reviewerPolicyVersion).overallQualified

/-! ## The ancestry of a reference is a prefix -/

theorem CanonicalChain.take {chain : List Dict} (h : CanonicalChain chain) (n : Nat) :
    CanonicalChain (chain.take n) where
  height i hi := by
    rw [List.getElem_take]
    exact h.height i (by simp only [List.length_take] at hi; omega)
  hash block hblock := h.hash block (List.mem_of_mem_take hblock)
  transactions block hblock := h.transactions block (List.mem_of_mem_take hblock)

theorem filterPy_eq_self {α : Type} {p : α → Py Bool} {xs : List α}
    (h : ∀ x ∈ xs, p x = .ok true) : filterPy p xs = .ok xs := by
  induction xs with
  | nil => rfl
  | cons x xs ih =>
    have hx := h x (by simp)
    simp [filterPy, hx, ih fun y hy => h y (by simp [hy])]

/-- The indices of a canonical chain, read in order. -/
theorem CanonicalChain.keyed {chain : List Dict} (h : CanonicalChain chain) :
    (chain.mapM fun block => (do return ((← blockIndex block), block) : Py (Int × Dict))) =
      .ok (chain.mapIdx fun i block => ((i : Int), block)) := by
  induction chain using List.reverseRecOn with
  | nil => rfl
  | append_singleton chain block ih =>
    have hprefix : CanonicalChain chain := by simpa using h.take chain.length
    have hlast : blockIndex block = .ok chain.length := by
      have := h.height chain.length (by simp)
      simpa using this
    rw [List.mapM_append, ih hprefix]
    simp [hlast, pure, Except.pure]

theorem CanonicalChain.ancestry_all {chain : List Dict} (h : CanonicalChain chain) {k : Int}
    (hk : (chain.length : Int) ≤ k + 1) : ancestry chain k = .ok chain := by
  have hkeep : ∀ block ∈ chain, (do
      return decide ((← blockIndexOrMinusOne block) ≤ k) : Py Bool) = .ok true := by
    intro block hblock
    obtain ⟨i, hi, rfl⟩ := List.mem_iff_getElem.mp hblock
    have hik : (i : Int) ≤ k := by omega
    simp [blockIndexOrMinusOne_eq (h.height i hi), pure, Except.pure, hik]
  have hsorted : (chain.mapIdx fun i block => ((i : Int), block)).Pairwise
      fun a b => a.1 ≤ b.1 := by
    rw [List.pairwise_iff_getElem]
    intro i j hi hj hij
    simp only [List.getElem_mapIdx]
    omega
  unfold ancestry
  rw [filterPy_eq_self hkeep, ok_bind, h.keyed, ok_bind, hsorted.insertionSort_eq]
  show Except.ok _ = _
  congr 1
  exact List.ext_getElem (by simp) (by simp)

/-- The ancestry of a reference is the chain up to it. -/
theorem CanonicalChain.ancestry_eq {chain : List Dict} (h : CanonicalChain chain) {k : Nat}
    (hk : k < chain.length) : ancestry chain k = .ok (chain.take (k + 1)) := by
  have habove : ∀ block ∈ chain.drop (k + 1), ∃ i, blockIndex block = .ok i ∧ (k : Int) < i := by
    intro block hblock
    obtain ⟨j, hj, rfl⟩ := List.mem_iff_getElem.mp hblock
    rw [List.getElem_drop]
    simp only [List.length_drop] at hj
    exact ⟨_, h.height _ (by omega), by omega⟩
  have hsplit : ancestry chain k = ancestry (chain.take (k + 1)) k := by
    rw [← ancestry_append (c := chain.take (k + 1)) habove, List.take_append_drop]
  rw [hsplit]
  exact (h.take (k + 1)).ancestry_all (by simp only [List.length_take]; omega)

/-- The block of a height is found at its position. -/
theorem CanonicalChain.findPy_eq {chain : List Dict} (h : CanonicalChain chain) {k : Nat}
    (hk : k < chain.length) :
    findPy (fun block => (do return decide ((← blockIndex block) = (k : Int)) : Py Bool)) chain =
      .ok (some chain[k]) := by
  have hsearch : ∀ (xs : List Dict) (off : Nat) (hoff : ∀ i (hi : i < xs.length),
      blockIndex xs[i] = .ok ((off + i : Nat) : Int)) (j : Nat) (hj : j < xs.length),
      off + j = k →
      findPy (fun block => (do return decide ((← blockIndex block) = (k : Int)) : Py Bool)) xs =
        .ok (some xs[j]) := by
    intro xs
    induction xs with
    | nil => intro _ _ j hj; simp at hj
    | cons x xs ih =>
      intro off hoff j hj hjk
      have hx : blockIndex x = .ok ((off : Nat) : Int) := hoff 0 (by simp)
      cases j with
      | zero =>
        obtain rfl : off = k := by omega
        simp [findPy, hx, pure, Except.pure]
      | succ j =>
        have hne : ¬off = k := by omega
        have := ih (off + 1) (fun i hi => by
          have := hoff (i + 1) (by simpa using hi)
          simpa [Nat.add_assoc, Nat.add_comm 1] using this) j (by simpa using hj) (by omega)
        simpa [findPy, hx, pure, Except.pure, hne] using this
  exact hsearch chain 0 (fun i hi => by simpa using h.height i hi) k hk (by omega)

/-! ## The activity of a wallet, height by height -/

/-- The native transactions of a well-formed block. -/
def nativeTransactionsOf (block : Dict) : List Value :=
  match (block.get "native_transactions").listOrEmpty with
  | .ok txs => txs
  | .error _ => []

/-- What `activityBlock` makes of a block at a height. -/
def activityStep (rt : Runtime) (address : String) (height : Int) (acc : Activity)
    (block : Dict) : Activity :=
  (nativeTransactionsOf block).foldl (activityTransaction rt address height)
    (if Value.trimmed rt (block.get "submission_id") ≠ "" ∧
        NativeTransfer.normalizeWalletAddress rt (block.get "creator_wallet") = some address then
      { acc with
        minted := addOnce acc.minted (Value.trimmed rt (block.get "submission_id")) height
        originHeights := acc.originHeights ++ [height] }
    else acc)

/-- No activity. -/
def Activity.empty : Activity := { minted := [], native := [], originHeights := [] }

/-- The activity of a wallet in the first blocks of a chain. -/
def activityUpTo (rt : Runtime) (address : String) (chain : List Dict) : Nat → Activity
  | 0 => .empty
  | n + 1 =>
    match chain[n]? with
    | some block => activityStep rt address n (activityUpTo rt address chain n) block
    | none => activityUpTo rt address chain n

theorem CanonicalChain.listOrEmpty_eq {chain : List Dict} (h : CanonicalChain chain)
    {block : Dict} (hblock : block ∈ chain) :
    (block.get "native_transactions").listOrEmpty = .ok (nativeTransactionsOf block) := by
  obtain ⟨txs, htxs⟩ := h.transactions block hblock
  simp [nativeTransactionsOf, htxs]

theorem CanonicalChain.canonicalActivity_eq {chain : List Dict} (h : CanonicalChain chain)
    (address : String) {n : Nat} (hn : n ≤ chain.length) :
    canonicalActivity rt address (chain.take n) = .ok (activityUpTo rt address chain n) := by
  induction n with
  | zero => rfl
  | succ n ih =>
    have hlt : n < chain.length := hn
    rw [List.take_succ_eq_append_getElem hlt]
    unfold canonicalActivity at ih ⊢
    rw [List.foldlM_append, ih (by omega), ok_bind, activityUpTo, List.getElem?_eq_getElem hlt]
    simp only [List.foldlM_cons, List.foldlM_nil, activityBlock, h.height n hlt, ok_bind,
      h.listOrEmpty_eq (List.getElem_mem hlt), bind_pure]
    rfl

/-! ## Qualification at a height -/

/-- The counted transfers span enough epochs. -/
def Activity.spanReached (act : Activity) : Prop :=
  ∃ first ∈ act.native.head?, ∃ last ∈ act.native.getLast?,
    zoidPathMinActivitySpanEpochs ≤ last.2 / reviewEpochBlocks - first.2 / reviewEpochBlocks

/-- The path of the creators is open, but for the age of the wallet. -/
def Activity.creatorOpen (act : Activity) : Prop :=
  creatorPathMinFinalizedMintedSubmissions ≤ act.minted.length

def Activity.mixedOpen (act : Activity) : Prop :=
  mixedPathMinFinalizedMintedSubmissions ≤ act.minted.length ∧
    mixedPathMinFinalizedNativeTransactions ≤ act.native.length

def Activity.zoidOpen (act : Activity) : Prop :=
  zoidPathMinFinalizedNativeTransactions ≤ act.native.length ∧ act.spanReached

/-- A height is old enough for a wallet first seen at `origin`. -/
def Activity.ageReached (act : Activity) (k : Int) : Prop :=
  ∃ origin ∈ act.originHeights.head?, origin + minWalletAgeEpochs * reviewEpochBlocks ≤ k

/-- The wallet qualifies at height `k`. -/
def Activity.qualifies (act : Activity) (k : Int) : Prop :=
  act.ageReached k ∧ (act.creatorOpen ∨ act.mixedOpen ∨ act.zoidOpen)

/-! ## The events of a wallet in a block -/

/-- What a block records about a wallet. -/
inductive WalletEvent where
  | minted (submissionId : String)
  | transferred (txId : String)
  | selfTransferred

/-- The part of a wallet in a native transaction. -/
def participation (rt : Runtime) (address : String) : Value → Option WalletEvent
  | .dict tx =>
    let txId := rt.lower (Value.trimmed rt (Dict.get tx "tx_id"))
    let sender := NativeTransfer.normalizeWalletAddress rt (Dict.get tx "from_address")
    let recipient := NativeTransfer.normalizeWalletAddress rt (Dict.get tx "to_address")
    if some address ≠ sender ∧ some address ≠ recipient then none
    else if txId ≠ "" ∧ sender ≠ recipient then some (.transferred txId)
    else some .selfTransferred
  | _ => none

/-- The minted submission of a wallet in a block. -/
def creation (rt : Runtime) (address : String) (block : Dict) : Option WalletEvent :=
  if Value.trimmed rt (block.get "submission_id") ≠ "" ∧
      NativeTransfer.normalizeWalletAddress rt (block.get "creator_wallet") = some address then
    some (.minted (Value.trimmed rt (block.get "submission_id")))
  else none

/-- The events of a wallet in a block, in the order of both traversals. -/
def eventsOf (rt : Runtime) (address : String) (block : Dict) : List WalletEvent :=
  (creation rt address block).toList ++
    (nativeTransactionsOf block).filterMap (participation rt address)

/-- An event in the plain scan. -/
def Activity.record (height : Int) (act : Activity) (event : WalletEvent) : Activity :=
  let act := { act with originHeights := act.originHeights ++ [height] }
  match event with
  | .minted submissionId => { act with minted := addOnce act.minted submissionId height }
  | .transferred txId => { act with native := addOnce act.native txId height }
  | .selfTransferred => act

theorem activityTransaction_eq (rt : Runtime) (address : String) (height : Int) (acc : Activity)
    (transaction : Value) :
    activityTransaction rt address height acc transaction =
      (participation rt address transaction).toList.foldl (Activity.record height) acc := by
  cases transaction with
  | dict tx =>
    simp only [activityTransaction, participation]
    split
    · rfl
    · split <;> rfl
  | _ => rfl

theorem activityStep_eq (rt : Runtime) (address : String) (height : Int) (acc : Activity)
    (block : Dict) :
    activityStep rt address height acc block =
      (eventsOf rt address block).foldl (Activity.record height) acc := by
  have hfold : ∀ (txs : List Value) (acc : Activity),
      txs.foldl (activityTransaction rt address height) acc =
        (txs.filterMap (participation rt address)).foldl (Activity.record height) acc := by
    intro txs
    induction txs with
    | nil => intro acc; rfl
    | cons tx txs ih =>
      intro acc
      rw [List.foldl_cons, ih, activityTransaction_eq, List.filterMap_cons]
      cases participation rt address tx <;> rfl
  unfold activityStep eventsOf creation
  rw [hfold, List.foldl_append]
  split <;> rfl

/-! ## The heights of an activity are ordered -/

/-- The heights of an activity are listed in order and lie below `n`. -/
structure Activity.Ordered (act : Activity) (n : Nat) : Prop where
  origins : act.originHeights.Pairwise (· ≤ ·)
  native : act.native.Pairwise fun e f => e.2 ≤ f.2
  origins_lt : ∀ x ∈ act.originHeights, 0 ≤ x ∧ x < n
  native_lt : ∀ e ∈ act.native, 0 ≤ e.2 ∧ e.2 < n

theorem Activity.Ordered.mono {act : Activity} {n : Nat} (h : act.Ordered n) :
    act.Ordered (n + 1) where
  origins := h.origins
  native := h.native
  origins_lt x hx := by
    have := h.origins_lt x hx
    omega
  native_lt e he := by
    have := h.native_lt e he
    omega

theorem pairwise_concat {α : Type} {r : α → α → Prop} {xs : List α} {a : α}
    (h : xs.Pairwise r) (ha : ∀ x ∈ xs, r x a) : (xs ++ [a]).Pairwise r := by
  rw [List.pairwise_append]
  exact ⟨h, List.pairwise_singleton r a, fun x hx y hy => List.mem_singleton.mp hy ▸ ha x hx⟩

theorem Activity.Ordered.record {act : Activity} {n : Nat} (h : act.Ordered (n + 1))
    (event : WalletEvent) : (act.record n event).Ordered (n + 1) := by
  have horigins : (act.originHeights ++ [(n : Int)]).Pairwise (· ≤ ·) :=
    pairwise_concat h.origins fun x hx => by
      have := h.origins_lt x hx
      omega
  have horigins_lt : ∀ x ∈ act.originHeights ++ [(n : Int)], 0 ≤ x ∧ x < (n + 1 : Nat) := by
    intro x hx
    obtain hx | hx := List.mem_append.mp hx
    · exact h.origins_lt x hx
    · obtain rfl := List.mem_singleton.mp hx
      omega
  cases event with
  | minted submissionId => exact ⟨horigins, h.native, horigins_lt, h.native_lt⟩
  | selfTransferred => exact ⟨horigins, h.native, horigins_lt, h.native_lt⟩
  | transferred txId =>
    refine ⟨horigins, ?_, horigins_lt, ?_⟩
    · show (addOnce act.native txId n).Pairwise _
      unfold addOnce
      split
      · exact h.native
      · exact pairwise_concat h.native fun e he => by
          have := h.native_lt e he
          show e.2 ≤ (n : Int)
          omega
    · show ∀ e ∈ addOnce act.native txId n, _
      intro e he
      unfold addOnce at he
      split at he
      · exact h.native_lt e he
      · obtain he | he := List.mem_append.mp he
        · exact h.native_lt e he
        · obtain rfl := List.mem_singleton.mp he
          show (0 : Int) ≤ n ∧ (n : Int) < (n + 1 : Nat)
          omega

theorem Activity.Ordered.foldl_record {act : Activity} {n : Nat} (h : act.Ordered (n + 1))
    (events : List WalletEvent) : (events.foldl (Activity.record n) act).Ordered (n + 1) := by
  induction events generalizing act with
  | nil => exact h
  | cons event events ih => exact ih (h.record event)

theorem activityUpTo_ordered (rt : Runtime) (address : String) (chain : List Dict) (n : Nat) :
    (activityUpTo rt address chain n).Ordered n := by
  induction n with
  | zero => exact ⟨.nil, .nil, by simp [activityUpTo, Activity.empty],
      by simp [activityUpTo, Activity.empty]⟩
  | succ n ih =>
    rw [activityUpTo]
    split
    · rw [activityStep_eq]
      exact ih.mono.foldl_record _
    · exact ih.mono

/-! ## An activity only grows -/

/-- A later activity of the same wallet: the tables are extended at their ends. -/
structure Activity.Le (act act' : Activity) : Prop where
  origins : act.originHeights <+: act'.originHeights
  minted : act.minted <+: act'.minted
  native : act.native <+: act'.native

theorem addOnce_prefix (entries : List (String × Int)) (key : String) (height : Int) :
    entries <+: addOnce entries key height := by
  unfold addOnce
  split
  · exact List.prefix_refl _
  · exact List.prefix_append _ _

theorem Activity.Le.foldl_record {act act' : Activity} (h : act.Le act') (height : Int)
    (events : List WalletEvent) : act.Le (events.foldl (Activity.record height) act') := by
  induction events generalizing act' with
  | nil => exact h
  | cons event events ih =>
    refine ih ⟨h.origins.trans ?_, h.minted.trans ?_, h.native.trans ?_⟩
    · cases event <;> exact List.prefix_append _ _
    · cases event with
      | minted submissionId => exact addOnce_prefix _ _ _
      | transferred txId => exact List.prefix_refl _
      | selfTransferred => exact List.prefix_refl _
    · cases event with
      | minted submissionId => exact List.prefix_refl _
      | transferred txId => exact addOnce_prefix _ _ _
      | selfTransferred => exact List.prefix_refl _

theorem activityUpTo_le (rt : Runtime) (address : String) (chain : List Dict) (n : Nat) :
    (activityUpTo rt address chain n).Le (activityUpTo rt address chain (n + 1)) := by
  have hrefl : (activityUpTo rt address chain n).Le (activityUpTo rt address chain n) :=
    ⟨List.prefix_refl _, List.prefix_refl _, List.prefix_refl _⟩
  rw [activityUpTo]
  split
  · rw [activityStep_eq]
    exact hrefl.foldl_record _ _
  · exact hrefl

/-! ## The paths stay open -/

theorem prefix_head? {α : Type} {xs ys : List α} {x : α} (h : xs <+: ys) (hx : x ∈ xs.head?) :
    x ∈ ys.head? := by
  obtain ⟨zs, rfl⟩ := h
  cases xs with
  | nil => cases hx
  | cons y xs => exact hx

theorem Activity.Le.creatorOpen {act act' : Activity} (h : act.Le act') (ho : act.creatorOpen) :
    act'.creatorOpen :=
  le_trans ho h.minted.length_le

theorem Activity.Le.mixedOpen {act act' : Activity} (h : act.Le act') (ho : act.mixedOpen) :
    act'.mixedOpen :=
  ⟨le_trans ho.1 h.minted.length_le, le_trans ho.2 h.native.length_le⟩

/-- The last item of an ordered list is the greatest. -/
theorem le_getLast? {α : Type} {f : α → Int} {xs : List α} {x last : α}
    (hsorted : xs.Pairwise fun a b => f a ≤ f b) (hx : x ∈ xs) (hlast : last ∈ xs.getLast?) :
    f x ≤ f last := by
  obtain ⟨init, rfl⟩ := List.getLast?_eq_some_iff.mp hlast
  obtain hx | hx := List.mem_append.mp hx
  · exact (List.pairwise_append.mp hsorted).2.2 x hx last (by simp)
  · rw [List.mem_singleton.mp hx]

theorem Activity.Le.zoidOpen {act act' : Activity} {n : Nat} (h : act.Le act')
    (hordered : act'.Ordered n) (ho : act.zoidOpen) : act'.zoidOpen := by
  obtain ⟨hcount, first, hfirst, last, hlast, hspan⟩ := ho
  have hfirst' := prefix_head? h.native hfirst
  have hmem : last ∈ act'.native := h.native.subset (List.mem_of_getLast? hlast)
  obtain ⟨last', hlast'⟩ : ∃ last', last' ∈ act'.native.getLast? := by
    cases hl : act'.native.getLast? with
    | none => rw [List.getLast?_eq_none_iff.mp hl] at hmem; cases hmem
    | some e => exact ⟨e, rfl⟩
  have hle : last.2 ≤ last'.2 := le_getLast? hordered.native hmem hlast'
  refine ⟨le_trans hcount h.native.length_le, first, hfirst', last', hlast', ?_⟩
  have hdiv : last.2 / reviewEpochBlocks ≤ last'.2 / reviewEpochBlocks :=
    Int.ediv_le_ediv (by decide) hle
  omega

/-! ## The verdict of the plain scan -/

/-- A reference whose hash is the one of its block has the prefix as its ancestry. -/
theorem CanonicalChain.finalizedContext_eq {chain : List Dict} (h : CanonicalChain chain)
    {k : Nat} (hk : k < chain.length) {head : FinalizedHead} (hheight : head.blockHeight = k)
    (hhash : blockHashText rt chain[k] = rt.lower (strip head.blockHash)) :
    finalizedContext rt chain head =
      .ok { height := k, blockHash := rt.lower (strip head.blockHash),
            blocks := chain.take (k + 1) } := by
  have htake := (h.take (k + 1)).findPy_eq (k := k) (by simp only [List.length_take]; omega)
  rw [List.getElem_take] at htake
  unfold finalizedContext
  simp only [hheight, h.ancestry_eq hk, ok_bind, htake]
  rw [require_pos ⟨chain[k], rfl, hhash⟩]
  rfl

theorem blockHashText_lower_strip (rt : Runtime) (block : Dict) :
    rt.lower (strip (blockHashText rt block)) = blockHashText rt block := by
  unfold blockHashText
  rw [rt.strip_lower, Value.strip_trimmed, rt.lower_lower]

theorem headOf_hash {chain : List Dict} {k : Nat} (hk : k < chain.length) :
    blockHashText rt chain[k] = rt.lower (strip (headOf rt chain k).blockHash) := by
  show _ = rt.lower (strip (blockHashText rt (chain[k]?.getD [])))
  rw [List.getElem?_eq_getElem hk, Option.getD_some, blockHashText_lower_strip]

theorem min?_eq_head?_of_pairwise {xs : List Int} (h : xs.Pairwise (· ≤ ·)) :
    xs.min? = xs.head? :=
  List.min?_eq_head? (h.imp fun hab => min_eq_left hab)

theorem max?_eq_getLast?_of_pairwise {xs : List Int} (h : xs.Pairwise (· ≤ ·)) :
    xs.max? = xs.getLast? := by
  cases hl : xs.getLast? with
  | none => rw [List.getLast?_eq_none_iff.mp hl]; rfl
  | some last =>
    rw [List.max?_eq_some_iff]
    exact ⟨List.mem_of_getLast? hl, fun x hx => le_getLast? (f := id) h hx hl⟩

/-- The age test of `qualification`. -/
theorem ageReached_iff {act : Activity} {k age : Int}
    (hage : ∀ o ∈ act.originHeights.head?, age = (k - o) / reviewEpochBlocks) :
    act.ageReached k ↔ act.originHeights.head?.isSome = true ∧ minWalletAgeEpochs ≤ age := by
  unfold Activity.ageReached
  cases horigin : act.originHeights.head? with
  | none => simp
  | some o =>
    rw [hage o horigin]
    simp only [Option.mem_def, Option.some.injEq, exists_eq_left', Option.isSome_some, true_and]
    show o + 3 * 5 ≤ k ↔ 3 ≤ (k - o) / 5
    omega

/-- The span test of `qualification`. -/
theorem spanReached_iff {act : Activity} {span : Int}
    (hspan : ∀ last ∈ act.native.getLast?, ∀ first ∈ act.native.head?,
      span = last.2 / reviewEpochBlocks - first.2 / reviewEpochBlocks)
    (hnone : act.native = [] → span = 0) :
    act.spanReached ↔ zoidPathMinActivitySpanEpochs ≤ span := by
  unfold Activity.spanReached
  cases hnative : act.native with
  | nil => simp [hnone hnative, zoidPathMinActivitySpanEpochs]
  | cons e rest =>
    have hfirst : act.native.head? = some e := by rw [hnative]; rfl
    obtain ⟨last, hlast⟩ : ∃ last, act.native.getLast? = some last := by
      rw [hnative]
      exact ⟨_, List.getLast?_eq_some_getLast (List.cons_ne_nil e rest)⟩
    rw [← hnative, hfirst, hlast, hspan last hlast e hfirst]
    simp

/-- The verdict of `qualification` in terms of the activity. -/
theorem qualification_verdict {chain : List Dict} (h : CanonicalChain chain) (address : String)
    {k : Nat} (hk : k < chain.length) {head : FinalizedHead} (hheight : head.blockHeight = k)
    (hhash : blockHashText rt chain[k] = rt.lower (strip head.blockHash)) :
    ∃ evidence, qualification rt address chain head 1 = .ok evidence ∧
      (evidence.overallQualified = true ↔ (activityUpTo rt address chain (k + 1)).qualifies k) := by
  have hordered := activityUpTo_ordered rt address chain (k + 1)
  have hactivity := @CanonicalChain.canonicalActivity_eq rt chain h address (k + 1) hk
  generalize activityUpTo rt address chain (k + 1) = act at hordered hactivity ⊢
  have hepochs : (act.native.mapM fun item => reviewEpoch item.2 1) =
      .ok (act.native.map fun e => e.2 / reviewEpochBlocks) := by
    have hmap : ∀ items : List (String × Int), (∀ e ∈ items, 0 ≤ e.2) →
        (items.mapM fun item => reviewEpoch item.2 1) =
          .ok (items.map fun e => e.2 / reviewEpochBlocks) := by
      intro items
      induction items with
      | nil => intro _; rfl
      | cons e items ih =>
        intro hpos
        rw [List.mapM_cons, reviewEpoch_one (hpos e (by simp)),
          ih fun f hf => hpos f (by simp [hf])]
        rfl
    exact hmap _ fun e he => (hordered.native_lt e he).1
  have hsorted : (act.native.map fun e => e.2 / reviewEpochBlocks).Pairwise (· ≤ ·) := by
    rw [List.pairwise_map]
    exact hordered.native.imp fun hle => Int.ediv_le_ediv (by decide) hle
  unfold qualification
  simp only [h.finalizedContext_eq hk hheight hhash, reviewerPolicy, reviewerPolicyVersion,
    require_pos, ok_bind, pure, Except.pure, hactivity, reviewEpoch_one (Int.natCast_nonneg k),
    hepochs, max?_eq_getLast?_of_pairwise hsorted, min?_eq_head?_of_pairwise hsorted,
    min?_eq_head?_of_pairwise hordered.origins]
  refine ⟨_, rfl, ?_⟩
  simp only [Qualification.overallQualified, Bool.or_eq_true, Bool.and_eq_true,
    decide_eq_true_eq]
  rw [← ageReached_iff (k := k) (fun o ho => by rw [ho]), ← @spanReached_iff act]
  rotate_left
  · intro last hlast first hfirst
    rw [List.getLast?_map, List.head?_map, hlast, hfirst]
    rfl
  · intro hnative
    rw [hnative]
    rfl
  unfold Activity.qualifies Activity.creatorOpen Activity.mixedOpen Activity.zoidOpen
  tauto

/-! ## One wallet in the traversal -/

namespace ReportReviewerIndex

/-- An event in the traversal. -/
def WalletState.record (height : Int) (state : WalletState) : WalletEvent → WalletState
  | .minted submissionId => state.mint submissionId
  | .transferred txId => state.transfer txId height
  | .selfTransferred => state

/-- What the events of a block make of the state of a wallet. -/
def recordEvents (height : Int) (events : List WalletEvent) (o : Option WalletState) :
    Option WalletState :=
  if events = [] then o
  else some (events.foldl (WalletState.record height) (o.getD (.seen height)))

theorem recordEvents_append (height : Int) (events more : List WalletEvent)
    (o : Option WalletState) :
    recordEvents height (events ++ more) o =
      recordEvents height more (recordEvents height events o) := by
  unfold recordEvents
  by_cases he : events = []
  · simp [he]
  · by_cases hm : more = []
    · simp [he, hm]
    · simp [he, hm, List.foldl_append]

/-- `p'` comes from `p` by the given events of a wallet. -/
structure Records (address : String) (height : Int) (events : List WalletEvent)
    (p p' : Progress) : Prop where
  state : p'.activity.get? address = recordEvents height events (p.activity.get? address)
  touched : address ∈ p'.touched ↔ address ∈ p.touched ∨ events ≠ []

theorem Records.refl (address : String) (height : Int) (p : Progress) :
    Records address height [] p p where
  state := by simp [recordEvents]
  touched := by simp

theorem Records.trans {address : String} {height : Int} {events more : List WalletEvent}
    {p q r : Progress} (h : Records address height events p q)
    (h' : Records address height more q r) : Records address height (events ++ more) p r where
  state := by rw [h'.state, h.state, recordEvents_append]
  touched := by
    rw [h'.touched, h.touched, or_assoc]
    simp only [ne_eq, List.append_eq_nil_iff]
    tauto

/-- Updating another wallet records nothing. -/
theorem records_update_of_ne {address other : String} (hne : other ≠ address) (height : Int)
    (p : Progress) (f : WalletState → WalletState) :
    Records address height [] p (p.update other height f) where
  state := by
    show (p.activity.set other _).get? address = _
    rw [Table.get?_set_of_ne hne]
    simp [recordEvents]
  touched := by
    show address ∈ p.touched.insert other ↔ _
    rw [List.mem_insert_iff]
    simp [Ne.symm hne]

/-- Updating the wallet itself records an event. -/
theorem records_update_self (address : String) (height : Int) (p : Progress)
    {f : WalletState → WalletState} {event : WalletEvent}
    (hf : ∀ state, f state = state.record height event) :
    Records address height [event] p (p.update address height f) where
  state := by
    show (p.activity.set address _).get? address = _
    rw [Table.get?_set_self, hf]
    simp [recordEvents]
  touched := by
    show address ∈ p.touched.insert address ↔ _
    simp

theorem records_indexCreator (rt : Runtime) (address : String) (height : Int) (p : Progress)
    (block : Dict) :
    Records address height (creation rt address block).toList p
      (indexCreator rt height p block) := by
  unfold indexCreator creation
  cases hcreator : NativeTransfer.normalizeWalletAddress rt (block.get "creator_wallet") with
  | none => simpa using Records.refl address height p
  | some creator =>
    by_cases hid : Value.trimmed rt (block.get "submission_id") = ""
    · simpa [hid] using Records.refl address height p
    · by_cases hne : creator = address
      · subst hne
        have h := @records_update_self creator height p
          (·.mint (Value.trimmed rt (block.get "submission_id"))) (.minted _) fun state => rfl
        simpa [hid] using h
      · simpa [hid, hne] using records_update_of_ne hne height p _

/-- The two ends of a transfer, without repetition. -/
theorem records_participants (address : String) (height : Int) (p : Progress)
    (sender recipient : Option String) {f : WalletState → WalletState} {event : WalletEvent}
    (hf : ∀ state, f state = state.record height event) :
    Records address height
      (if some address ≠ sender ∧ some address ≠ recipient then [] else [event]) p
      ((participants sender recipient).foldl (fun p a => p.update a height f) p) := by
  have hone : ∀ (a : String) (q : Progress),
      Records address height (if a = address then [event] else []) q (q.update a height f) := by
    intro a q
    by_cases ha : a = address
    · subst ha
      simpa using records_update_self a height q hf
    · simpa [ha] using records_update_of_ne ha height q f
  cases sender with
  | none =>
    cases recipient with
    | none => simpa [participants, List.reduceOption] using Records.refl address height p
    | some r =>
      have h := hone r p
      simpa [participants, List.reduceOption, eq_comm, ite_not] using h
  | some s =>
    cases recipient with
    | none =>
      have h := hone s p
      simpa [participants, List.reduceOption, eq_comm, ite_not] using h
    | some r =>
      by_cases hsr : s = r
      · subst hsr
        have h := hone s p
        simpa [participants, List.reduceOption, eq_comm, ite_not] using h
      · have h := (hone s p).trans (hone r (p.update s height f))
        have hparticipants : participants (some s) (some r) = [s, r] :=
          List.dedup_eq_self.mpr (List.nodup_cons.mpr ⟨by simpa using hsr, List.nodup_singleton r⟩)
        rw [hparticipants]
        by_cases hs : s = address
        · subst hs
          simpa [Ne.symm hsr] using h
        · by_cases hr : r = address
          · subst hr
            simpa [hs] using h
          · simpa [hs, hr, Ne.symm hs, Ne.symm hr] using h

theorem records_indexTransaction (rt : Runtime) (address : String) (height : Int) (p : Progress)
    (transaction : Value) :
    Records address height (participation rt address transaction).toList p
      (indexTransaction rt height p transaction) := by
  cases transaction with
  | dict tx =>
    simp only [indexTransaction, participation]
    generalize NativeTransfer.normalizeWalletAddress rt (Dict.get tx "from_address") = sender
    generalize NativeTransfer.normalizeWalletAddress rt (Dict.get tx "to_address") = recipient
    generalize rt.lower (Value.trimmed rt (Dict.get tx "tx_id")) = txId
    by_cases hcounted : sender ≠ recipient ∧ txId ≠ ""
    · have h := @records_participants address height p sender recipient
        (fun state => state.transfer txId height) (.transferred txId) fun state => rfl
      simp only [if_pos hcounted]
      rw [if_pos (And.symm hcounted)]
      split at h <;> next hpart => simpa [hpart] using h
    · have h := @records_participants address height p sender recipient
        (fun state => state) .selfTransferred fun state => rfl
      simp only [if_neg hcounted]
      rw [if_neg fun hc => hcounted (And.symm hc)]
      split at h <;> next hpart => simpa [hpart] using h
  | _ => exact Records.refl address height p

/-- The readiness tests may be repeated. -/
theorem WalletState.noteReady_noteReady (state : WalletState) (height : Int) :
    (state.noteReady height).noteReady height = state.noteReady height := by
  have hmark : ∀ (o : Option Int) (b : Bool), markReady (markReady o b height) b height =
      markReady o b height := by
    intro o b
    cases o <;> cases b <;> rfl
  unfold noteReady
  simp only [WalletState.mk.injEq, true_and, and_true]
  exact ⟨hmark _ _, hmark _ _, hmark _ _⟩

theorem get?_noteTouched (height : Int) (p : Progress) (address : String) :
    (noteTouched height p).get? address =
      if address ∈ p.touched then (p.activity.get? address).map (·.noteReady height)
      else p.activity.get? address := by
  have hfold : ∀ (touched : List String) (activity : Table String WalletState),
      (noteTouched height { activity, touched }).get? address =
      if address ∈ touched then (activity.get? address).map (·.noteReady height)
      else activity.get? address := by
    intro touched
    induction touched with
    | nil => intro activity; rfl
    | cons a touched ih =>
      intro activity
      cases ha : activity.get? a with
      | none =>
        have hstep : noteTouched height { activity, touched := a :: touched } =
            noteTouched height { activity, touched } := by
          simp only [noteTouched, List.foldl_cons, ha]
        rw [hstep, ih]
        by_cases hne : address = a
        · subst hne
          simp [ha]
        · simp [hne]
      | some state =>
        have hstep : noteTouched height { activity, touched := a :: touched } = noteTouched height
            { activity := activity.set a (state.noteReady height), touched } := by
          simp only [noteTouched, List.foldl_cons, ha]
        rw [hstep, ih]
        by_cases hne : address = a
        · subst hne
          simp [ha, WalletState.noteReady_noteReady]
        · simp [Table.get?_set_of_ne (Ne.symm hne), hne]
  exact hfold p.touched p.activity

/-- What a block makes of the state of a wallet. -/
def walletBlock (height : Int) (events : List WalletEvent) (o : Option WalletState) :
    Option WalletState :=
  if events = [] then o else (recordEvents height events o).map (·.noteReady height)

/-- One block of the traversal, wallet by wallet. -/
theorem indexBlock_spec {chain : List Dict} (h : CanonicalChain chain) {n : Nat}
    (hn : n < chain.length) (activity : Table String WalletState) :
    ∃ activity', indexBlock rt activity chain[n] = .ok activity' ∧ ∀ address,
      activity'.get? address =
        walletBlock n (eventsOf rt address chain[n]) (activity.get? address) := by
  let p := indexCreator rt n { activity, touched := [] } chain[n]
  let q := (nativeTransactionsOf chain[n]).foldl (indexTransaction rt n) p
  refine ⟨noteTouched n q, ?_, fun address => ?_⟩
  · simp only [indexBlock, h.height n hn, h.listOrEmpty_eq (List.getElem_mem hn), ok_bind]
    rfl
  · have hfold : ∀ (txs : List Value) (p : Progress),
        Records address n (txs.filterMap (participation rt address)) p
          (txs.foldl (indexTransaction rt n) p) := by
      intro txs
      induction txs with
      | nil => intro p; exact Records.refl address n p
      | cons tx txs ih =>
        intro p
        have hstep := (records_indexTransaction rt address n p tx).trans (ih _)
        rw [List.foldl_cons, List.filterMap_cons]
        cases hpart : participation rt address tx with
        | none => simpa [hpart] using hstep
        | some event => simpa [hpart] using hstep
    have hblock : Records address n (eventsOf rt address chain[n]) { activity, touched := [] } q :=
      (records_indexCreator rt address n { activity, touched := [] } chain[n]).trans
        (hfold (nativeTransactionsOf chain[n]) p)
    rw [get?_noteTouched, hblock.state, walletBlock]
    have htouched := hblock.touched
    by_cases hevents : eventsOf rt address chain[n] = []
    · simp [htouched, hevents, recordEvents]
    · simp [htouched, hevents]

/-! ## The invariant of the traversal -/

/-- The state of a wallet summarizes its activity. -/
structure Matches (act : Activity) (o : Option WalletState) : Prop where
  origin : o.map (·.origin) = act.originHeights.head?
  minted : ((o.map (·.minted)).getD []) = act.minted.map (·.1)
  native : ((o.map (·.native)).getD []) = act.native.map (·.1)
  firstEpoch : o.bind (·.firstNativeEpoch) = act.native.head?.map (·.2 / reviewEpochBlocks)
  lastEpoch : o.bind (·.lastNativeEpoch) = act.native.getLast?.map (·.2 / reviewEpochBlocks)

theorem head?_concat_map {α β : Type} (xs : List α) (a : α) (f : α → β) :
    (xs ++ [a]).head?.map f = (xs.head?.map f).or (some (f a)) := by
  cases xs <;> rfl

theorem Matches.record {act : Activity} {o : Option WalletState} (h : Matches act o)
    (height : Int) (event : WalletEvent) :
    Matches (act.record height event) (some ((o.getD (.seen height)).record height event)) := by
  have horigin : some (o.getD (.seen height)).origin =
      (act.originHeights ++ [height]).head? := by
    rw [List.head?_append, ← h.origin]
    cases o <;> rfl
  have hminted : (o.getD (.seen height)).minted = act.minted.map (·.1) := by
    rw [← h.minted]
    cases o <;> rfl
  have hnative : (o.getD (.seen height)).native = act.native.map (·.1) := by
    rw [← h.native]
    cases o <;> rfl
  have hfirst : (o.getD (.seen height)).firstNativeEpoch =
      act.native.head?.map (·.2 / reviewEpochBlocks) := by
    rw [← h.firstEpoch]
    cases o <;> rfl
  have hlast : (o.getD (.seen height)).lastNativeEpoch =
      act.native.getLast?.map (·.2 / reviewEpochBlocks) := by
    rw [← h.lastEpoch]
    cases o <;> rfl
  generalize o.getD (.seen height) = state at horigin hminted hnative hfirst hlast
  cases event with
  | selfTransferred => exact ⟨horigin, hminted, hnative, hfirst, hlast⟩
  | minted submissionId =>
    refine ⟨horigin, ?_, hnative, hfirst, hlast⟩
    show (state.mint submissionId).minted = (addOnce act.minted submissionId height).map (·.1)
    unfold WalletState.mint addOnce
    simp only [hminted]
    split
    · rfl
    · simp
  | transferred txId =>
    by_cases hmem : txId ∈ act.native.map (·.1)
    · have hstate : state.transfer txId height = state := if_pos (hnative ▸ hmem)
      have hact : addOnce act.native txId height = act.native := if_pos hmem
      simp only [WalletState.record, Activity.record, hstate, hact]
      exact ⟨horigin, hminted, hnative, hfirst, hlast⟩
    · have hact : addOnce act.native txId height = act.native ++ [(txId, height)] := if_neg hmem
      simp only [WalletState.record, WalletState.transfer, Activity.record,
        if_neg (hnative ▸ hmem : txId ∉ state.native), hact]
      refine ⟨horigin, hminted, ?_, ?_, ?_⟩
      · show state.native ++ [txId] = (act.native ++ [(txId, height)]).map (·.1)
        rw [hnative, List.map_append]
        rfl
      · show state.firstNativeEpoch.or (some (height / reviewEpochBlocks)) = _
        rw [hfirst, head?_concat_map]
      · rw [List.getLast?_concat]
        rfl

/-- The heights at which the paths of a wallet became ready. -/
def WalletState.readies (state : WalletState) : Option Int × Option Int × Option Int :=
  (state.creatorReady, state.mixedReady, state.zoidReady)

theorem WalletState.readies_record (state : WalletState) (height : Int) (event : WalletEvent) :
    (state.record height event).readies = state.readies := by
  cases event with
  | minted submissionId => rfl
  | selfTransferred => rfl
  | transferred txId =>
    show (state.transfer txId height).readies = state.readies
    unfold WalletState.transfer
    split <;> rfl

/-- The events of a block keep the summary and leave the readiness heights alone. -/
theorem Matches.recordEvents {act : Activity} {o : Option WalletState} (h : Matches act o)
    (height : Int) {events : List WalletEvent} (hne : events ≠ []) :
    ∃ state, recordEvents height events o = some state ∧
      Matches (events.foldl (Activity.record height) act) (some state) ∧
      state.readies = (o.getD (.seen height)).readies := by
  have hfold : ∀ (events : List WalletEvent) (act : Activity) (state : WalletState),
      Matches act (some state) →
      Matches (events.foldl (Activity.record height) act)
          (some (events.foldl (WalletState.record height) state)) ∧
        (events.foldl (WalletState.record height) state).readies = state.readies := by
    intro events
    induction events with
    | nil => exact fun act state h => ⟨h, rfl⟩
    | cons event events ih =>
      intro act state h
      obtain ⟨hmatch, hready⟩ := ih _ _ (h.record height event)
      exact ⟨hmatch, hready.trans (state.readies_record height event)⟩
  cases events with
  | nil => exact absurd rfl hne
  | cons event events =>
    obtain ⟨hmatch, hready⟩ := hfold events _ _ (h.record height event)
    exact ⟨_, if_neg hne, hmatch, hready.trans (WalletState.readies_record _ height event)⟩

/-- The readiness tests read the activity. -/
theorem Matches.creatorOpen_iff {act : Activity} {state : WalletState}
    (h : Matches act (some state)) : state.creatorOpen = true ↔ act.creatorOpen := by
  have hminted : state.minted = act.minted.map (·.1) := h.minted
  simp [WalletState.creatorOpen, Activity.creatorOpen, hminted]

theorem Matches.mixedOpen_iff {act : Activity} {state : WalletState}
    (h : Matches act (some state)) : state.mixedOpen = true ↔ act.mixedOpen := by
  have hminted : state.minted = act.minted.map (·.1) := h.minted
  have hnative : state.native = act.native.map (·.1) := h.native
  simp [WalletState.mixedOpen, Activity.mixedOpen, hminted, hnative]

theorem Matches.zoidOpen_iff {act : Activity} {state : WalletState}
    (h : Matches act (some state)) : state.zoidOpen = true ↔ act.zoidOpen := by
  have hnative : state.native = act.native.map (·.1) := h.native
  have hfirst : state.firstNativeEpoch = act.native.head?.map (·.2 / reviewEpochBlocks) :=
    h.firstEpoch
  have hlast : state.lastNativeEpoch = act.native.getLast?.map (·.2 / reviewEpochBlocks) :=
    h.lastEpoch
  unfold WalletState.zoidOpen Activity.zoidOpen Activity.spanReached
  rw [hfirst, hlast, hnative]
  cases act.native.getLast? with
  | none => simp
  | some last =>
    cases act.native.head? with
    | none => simp
    | some first => simp

/-- What holds of a wallet after `n` blocks of the traversal. -/
structure Indexed (rt : Runtime) (address : String) (chain : List Dict) (n : Nat)
    (o : Option WalletState) : Prop where
  summary : Matches (activityUpTo rt address chain n) o
  creator : Scan.FirstReach (fun k => (activityUpTo rt address chain (k + 1)).creatorOpen) n
    (o.bind (·.creatorReady))
  mixed : Scan.FirstReach (fun k => (activityUpTo rt address chain (k + 1)).mixedOpen) n
    (o.bind (·.mixedReady))
  zoid : Scan.FirstReach (fun k => (activityUpTo rt address chain (k + 1)).zoidOpen) n
    (o.bind (·.zoidReady))

theorem Indexed.zero (rt : Runtime) (address : String) (chain : List Dict) :
    Indexed rt address chain 0 none where
  summary := ⟨rfl, rfl, rfl, rfl, rfl⟩
  creator := .zero _
  mixed := .zero _
  zoid := .zero _

section Step

variable {address : String} {chain : List Dict}

theorem creatorOpen_succ (k : Nat) (h : (activityUpTo rt address chain k).creatorOpen) :
    (activityUpTo rt address chain (k + 1)).creatorOpen :=
  (activityUpTo_le rt address chain k).creatorOpen h

theorem mixedOpen_succ (k : Nat) (h : (activityUpTo rt address chain k).mixedOpen) :
    (activityUpTo rt address chain (k + 1)).mixedOpen :=
  (activityUpTo_le rt address chain k).mixedOpen h

theorem zoidOpen_succ (k : Nat) (h : (activityUpTo rt address chain k).zoidOpen) :
    (activityUpTo rt address chain (k + 1)).zoidOpen :=
  (activityUpTo_le rt address chain k).zoidOpen (activityUpTo_ordered rt address chain _) h

/-- Without an event of the wallet nothing opens that was not open before. -/
theorem open_before {P : Activity → Prop} {n : Nat} (hempty : ¬P .empty)
    (hsame : activityUpTo rt address chain (n + 1) = activityUpTo rt address chain n)
    (h : P (activityUpTo rt address chain (n + 1))) :
    ∃ k < n, P (activityUpTo rt address chain (k + 1)) := by
  rw [hsame] at h
  cases n with
  | zero => exact absurd h hempty
  | succ m => exact ⟨m, Nat.lt_succ_self m, h⟩

/-- One block keeps the invariant. -/
theorem Indexed.step {n : Nat} {o : Option WalletState} (h : Indexed rt address chain n o)
    (hn : n < chain.length) :
    Indexed rt address chain (n + 1) (walletBlock n (eventsOf rt address chain[n]) o) := by
  have hact : activityUpTo rt address chain (n + 1) =
      (eventsOf rt address chain[n]).foldl (Activity.record n)
        (activityUpTo rt address chain n) := by
    rw [activityUpTo, List.getElem?_eq_getElem hn, ← activityStep_eq]
  by_cases hevents : eventsOf rt address chain[n] = []
  · have hsame : activityUpTo rt address chain (n + 1) = activityUpTo rt address chain n := by
      rw [hact, hevents]
      rfl
    rw [walletBlock, if_pos hevents]
    refine ⟨hsame ▸ h.summary, ?_, ?_, ?_⟩
    · exact h.creator.carry (fun k => creatorOpen_succ (k + 1)) fun hP =>
        open_before (by simp [Activity.creatorOpen, Activity.empty,
          creatorPathMinFinalizedMintedSubmissions]) hsame hP
    · exact h.mixed.carry (fun k => mixedOpen_succ (k + 1)) fun hP =>
        open_before (by simp [Activity.mixedOpen, Activity.empty,
          mixedPathMinFinalizedMintedSubmissions]) hsame hP
    · exact h.zoid.carry (fun k => zoidOpen_succ (k + 1)) fun hP =>
        open_before (by simp [Activity.zoidOpen, Activity.empty,
          zoidPathMinFinalizedNativeTransactions]) hsame hP
  · obtain ⟨state, hstate, hmatch, hready⟩ := h.summary.recordEvents n hevents
    rw [← hact] at hmatch
    have hseen : (o.getD (.seen n)).readies =
        (o.bind (·.creatorReady), o.bind (·.mixedReady), o.bind (·.zoidReady)) := by
      cases o <;> rfl
    rw [hseen] at hready
    simp only [WalletState.readies, Prod.mk.injEq] at hready
    obtain ⟨hcreator, hmixed, hzoid⟩ := hready
    rw [walletBlock, if_neg hevents, hstate]
    refine ⟨⟨hmatch.origin, hmatch.minted, hmatch.native, hmatch.firstEpoch, hmatch.lastEpoch⟩,
      ?_, ?_, ?_⟩
    · show Scan.FirstReach _ _ (WalletState.markReady state.creatorReady state.creatorOpen n)
      rw [hcreator]
      exact h.creator.mark (fun k => creatorOpen_succ (k + 1)) hmatch.creatorOpen_iff
    · show Scan.FirstReach _ _ (WalletState.markReady state.mixedReady state.mixedOpen n)
      rw [hmixed]
      exact h.mixed.mark (fun k => mixedOpen_succ (k + 1)) hmatch.mixedOpen_iff
    · show Scan.FirstReach _ _ (WalletState.markReady state.zoidReady state.zoidOpen n)
      rw [hzoid]
      exact h.zoid.mark (fun k => zoidOpen_succ (k + 1)) hmatch.zoidOpen_iff

end Step

/-- A whole traversal. -/
theorem indexed_of_traversal {chain : List Dict} (h : CanonicalChain chain) {n : Nat}
    (hn : n ≤ chain.length) :
    ∃ activity, (chain.take n).foldlM (indexBlock rt) [] = .ok activity ∧
      ∀ address, Indexed rt address chain n (activity.get? address) := by
  induction n with
  | zero => exact ⟨[], rfl, fun address => Indexed.zero rt address chain⟩
  | succ n ih =>
    obtain ⟨activity, hactivity, hindexed⟩ := ih (by omega)
    obtain ⟨activity', hblock, hwallets⟩ := @indexBlock_spec rt chain h n hn activity
    refine ⟨activity', ?_, fun address => ?_⟩
    · rw [List.take_succ_eq_append_getElem hn, foldlM_append_eq_ok]
      exact ⟨activity, hactivity, by simpa using hblock⟩
    · rw [hwallets address]
      exact (hindexed address).step hn

/-! ## The recorded heights -/

theorem activityUpTo_le_of_le (rt : Runtime) (address : String) (chain : List Dict) {m n : Nat}
    (h : m ≤ n) : (activityUpTo rt address chain m).Le (activityUpTo rt address chain n) := by
  induction n, h using Nat.le_induction with
  | base => exact ⟨List.prefix_refl _, List.prefix_refl _, List.prefix_refl _⟩
  | succ n _ ih =>
    have hstep := activityUpTo_le rt address chain n
    exact ⟨ih.origins.trans hstep.origins, ih.minted.trans hstep.minted,
      ih.native.trans hstep.native⟩

/-- A wallet without an origin has no activity. -/
theorem activityUpTo_eq_empty {address : String} {chain : List Dict} {n : Nat}
    (h : (activityUpTo rt address chain n).originHeights = []) :
    activityUpTo rt address chain n = .empty := by
  induction n with
  | zero => rfl
  | succ n ih =>
    have hprefix := (activityUpTo_le rt address chain n).origins
    rw [h, List.prefix_nil] at hprefix
    rw [activityUpTo] at h ⊢
    cases hblock : chain[n]? with
    | none => exact ih hprefix
    | some block =>
      simp only [hblock, activityStep_eq] at h ⊢
      cases hevents : eventsOf rt address block with
      | nil => exact ih hprefix
      | cons event events =>
        -- an event leaves an origin behind
        exfalso
        rw [hevents, List.foldl_cons] at h
        have hle : ((activityUpTo rt address chain n).record n event).Le
            (events.foldl (Activity.record n) ((activityUpTo rt address chain n).record n event)) :=
          Activity.Le.foldl_record
            ⟨List.prefix_refl _, List.prefix_refl _, List.prefix_refl _⟩ n events
        have hlast := hle.origins
        rw [h, List.prefix_nil] at hlast
        cases event <;> exact List.append_ne_nil_of_right_ne_nil _ (List.cons_ne_nil _ _) hlast

/-- An open path has an origin. -/
theorem origins_ne_nil {address : String} {chain : List Dict} {n : Nat}
    (h : (activityUpTo rt address chain n).creatorOpen ∨
      (activityUpTo rt address chain n).mixedOpen ∨ (activityUpTo rt address chain n).zoidOpen) :
    (activityUpTo rt address chain n).originHeights ≠ [] := by
  intro hnil
  rw [activityUpTo_eq_empty hnil] at h
  simp [Activity.creatorOpen, Activity.mixedOpen, Activity.zoidOpen, Activity.empty,
    creatorPathMinFinalizedMintedSubmissions, mixedPathMinFinalizedMintedSubmissions,
    zoidPathMinFinalizedNativeTransactions] at h

/-- The items of `candidates`. -/
theorem WalletState.mem_candidates {state : WalletState} {x : Int} :
    x ∈ state.candidates ↔ ∃ r, (state.creatorReady = some r ∨ state.mixedReady = some r ∨
      state.zoidReady = some r) ∧
      x = max (state.origin + minWalletAgeEpochs * reviewEpochBlocks) r := by
  simp only [WalletState.candidates, List.mem_map, List.reduceOption_mem_iff, List.mem_cons,
    List.not_mem_nil, or_false]
  constructor
  · rintro ⟨r, h, rfl⟩
    exact ⟨r, by simpa only [eq_comm] using h, rfl⟩
  · rintro ⟨r, h, rfl⟩
    exact ⟨r, by simpa only [eq_comm] using h, rfl⟩

/-- After `n` blocks, a height below `n` qualifies exactly from some candidate on. -/
theorem Indexed.qualifies_iff {address : String} {chain : List Dict} {n k : Nat}
    {o : Option WalletState} (h : Indexed rt address chain n o) (hk : k < n) :
    (activityUpTo rt address chain (k + 1)).qualifies k ↔
      ∃ state ∈ o, ∃ x ∈ state.candidates, x ≤ (k : Int) := by
  have horigins := (activityUpTo_le_of_le rt address chain hk).origins
  constructor
  · rintro ⟨⟨origin, horigin, hage⟩, hopen⟩
    -- the origin of the prefix is the recorded one
    have hsome := h.summary.origin
    rw [prefix_head? horigins horigin] at hsome
    obtain ⟨state, rfl, rfl⟩ := Option.map_eq_some_iff.mp hsome
    refine ⟨state, rfl, ?_⟩
    obtain ⟨r, hr, hrk⟩ : ∃ r, (state.creatorReady = some r ∨ state.mixedReady = some r ∨
        state.zoidReady = some r) ∧ r ≤ (k : Int) := by
      obtain hopen | hopen | hopen := hopen
      · obtain ⟨r, hr, hrk⟩ := (h.creator.decides k hk).mp hopen
        exact ⟨r, Or.inl hr, hrk⟩
      · obtain ⟨r, hr, hrk⟩ := (h.mixed.decides k hk).mp hopen
        exact ⟨r, Or.inr (Or.inl hr), hrk⟩
      · obtain ⟨r, hr, hrk⟩ := (h.zoid.decides k hk).mp hopen
        exact ⟨r, Or.inr (Or.inr hr), hrk⟩
    exact ⟨_, WalletState.mem_candidates.mpr ⟨r, hr, rfl⟩, max_le hage hrk⟩
  · rintro ⟨state, hstate, x, hx, hxk⟩
    obtain rfl := Option.mem_def.mp hstate
    obtain ⟨r, hr, rfl⟩ := WalletState.mem_candidates.mp hx
    obtain ⟨hage, hrk⟩ := max_le_iff.mp hxk
    have hopen : (activityUpTo rt address chain (k + 1)).creatorOpen ∨
        (activityUpTo rt address chain (k + 1)).mixedOpen ∨
        (activityUpTo rt address chain (k + 1)).zoidOpen := by
      obtain hr | hr | hr := hr
      · exact Or.inl ((h.creator.decides k hk).mpr ⟨r, hr, hrk⟩)
      · exact Or.inr (Or.inl ((h.mixed.decides k hk).mpr ⟨r, hr, hrk⟩))
      · exact Or.inr (Or.inr ((h.zoid.decides k hk).mpr ⟨r, hr, hrk⟩))
    refine ⟨?_, hopen⟩
    obtain ⟨origin, horigin⟩ : ∃ origin, origin ∈
        (activityUpTo rt address chain (k + 1)).originHeights.head? := by
      cases hl : (activityUpTo rt address chain (k + 1)).originHeights with
      | nil => exact absurd hl (origins_ne_nil hopen)
      | cons origin rest => exact ⟨origin, rfl⟩
    have hsome := h.summary.origin
    rw [prefix_head? horigins horigin] at hsome
    obtain rfl : state.origin = origin := Option.some.inj hsome
    exact ⟨state.origin, horigin, hage⟩

/-- The recorded height of a wallet is the least height at which it qualifies. -/
theorem Indexed.recorded {address : String} {chain : List Dict} {n : Nat}
    {o : Option WalletState} (h : Indexed rt address chain (n + 1) o) :
    (∀ q ∈ o.bind (·.qualifiedHeight n), IsLeast {k : Int | 0 ≤ k ∧ k ≤ n ∧
        (activityUpTo rt address chain (k.toNat + 1)).qualifies k} q) ∧
      (o.bind (·.qualifiedHeight n) = none → ∀ k : Int, 0 ≤ k → k ≤ n →
        ¬(activityUpTo rt address chain (k.toNat + 1)).qualifies k) := by
  have hQ : ∀ k : Int, 0 ≤ k → k ≤ n →
      ((activityUpTo rt address chain (k.toNat + 1)).qualifies k ↔
        ∃ x ∈ (o.map (·.candidates)).getD [], x ≤ k) := by
    intro k hk0 hkn
    have hiff := h.qualifies_iff (k := k.toNat) (by omega)
    rw [Int.toNat_of_nonneg hk0] at hiff
    rw [hiff]
    cases o <;> simp
  have hpos : ∀ x ∈ (o.map (·.candidates)).getD [], 0 ≤ x := by
    intro x hx
    cases o with
    | none => simp at hx
    | some state =>
      obtain ⟨r, hr, rfl⟩ := WalletState.mem_candidates.mp hx
      have hr0 : 0 ≤ r := by
        obtain hr | hr | hr := hr
        · exact (h.creator.bound r hr).1
        · exact (h.mixed.bound r hr).1
        · exact (h.zoid.bound r hr).1
      exact le_trans hr0 (le_max_right _ _)
  constructor
  · intro q hq
    obtain ⟨state, hstate, hq⟩ := Option.bind_eq_some_iff.mp hq
    obtain ⟨hmin, hle⟩ := Option.filter_eq_some_iff.mp hq
    obtain rfl := hstate
    exact Scan.isLeast_min? hpos hQ hmin (by simpa using hle)
  · intro hnone k hk0 hkn
    refine Scan.not_of_min? hQ (fun m hm => ?_) hk0 hkn
    cases o with
    | none => simp at hm
    | some state =>
      have hfilter : state.candidates.min?.filter (· ≤ (n : Int)) = none := hnone
      rw [show state.candidates.min? = some m from hm] at hfilter
      simpa using hfilter

/-! ## The keys of the traversal -/

/-- The keys of `activity`: distinct addresses. -/
structure WellKeyed (activity : Table String WalletState) : Prop where
  nodup : activity.keys.Nodup
  address : ∀ a ∈ activity.keys, IsWalletAddress a

theorem WellKeyed.set {activity : Table String WalletState} (h : WellKeyed activity)
    {address : String} (ha : IsWalletAddress address) (state : WalletState) :
    WellKeyed (activity.set address state) where
  nodup := Table.keys_set_nodup h.nodup
  address a hmem := by
    obtain ⟨e, he, rfl⟩ := List.mem_map.mp hmem
    obtain rfl | he := Table.mem_set he
    · exact ha
    · exact h.address _ (List.mem_map_of_mem he)

theorem wellKeyed_indexTransaction {p : Progress} (h : WellKeyed p.activity) (height : Int)
    (transaction : Value) : WellKeyed (indexTransaction rt height p transaction).activity := by
  have hfold : ∀ (addresses : List String) (f : WalletState → WalletState) (p : Progress),
      (∀ a ∈ addresses, IsWalletAddress a) → WellKeyed p.activity →
      WellKeyed (addresses.foldl (fun p a => p.update a height f) p).activity := by
    intro addresses f
    induction addresses with
    | nil => exact fun p _ h => h
    | cons a addresses ih =>
      intro p ha h
      exact ih _ (fun b hb => ha b (by simp [hb])) (h.set (ha a (by simp)) _)
  cases transaction with
  | dict tx =>
    refine hfold _ _ p (fun a ha => ?_) h
    unfold participants at ha
    rw [List.mem_dedup, List.reduceOption_mem_iff, List.mem_cons, List.mem_singleton] at ha
    obtain ha | ha := ha
    · exact NativeTransfer.isWalletAddress_of_normalize ha.symm
    · exact NativeTransfer.isWalletAddress_of_normalize ha.symm
  | _ => exact h

theorem wellKeyed_indexCreator {p : Progress} (h : WellKeyed p.activity) (height : Int)
    (block : Dict) : WellKeyed (indexCreator rt height p block).activity := by
  unfold indexCreator
  dsimp only
  split
  · next creator hcreator =>
    split
    · exact h.set (NativeTransfer.isWalletAddress_of_normalize hcreator) _
    · exact h
  · exact h

theorem wellKeyed_noteTouched {p : Progress} (h : WellKeyed p.activity) (height : Int) :
    WellKeyed (noteTouched height p) := by
  unfold noteTouched
  generalize p.activity = activity at h
  induction p.touched generalizing activity with
  | nil => exact h
  | cons a touched ih =>
    refine ih _ ?_
    dsimp only
    split
    · next state hstate =>
      exact h.set (h.address a (List.mem_map_of_mem (Table.mem_of_get? hstate))) _
    · exact h

theorem wellKeyed_traversal {blocks : List Dict} {activity activity' : Table String WalletState}
    (h : WellKeyed activity) (hrun : blocks.foldlM (indexBlock rt) activity = .ok activity') :
    WellKeyed activity' := by
  induction blocks generalizing activity with
  | nil =>
    obtain rfl := foldlM_nil_eq_ok.mp hrun
    exact h
  | cons block blocks ih =>
    obtain ⟨middle, hblock, hrest⟩ := foldlM_cons_eq_ok.mp hrun
    refine ih ?_ hrest
    simp only [indexBlock, bind_eq_ok, pure_eq_ok] at hblock
    obtain ⟨height, -, transactions, -, rfl⟩ := hblock
    have hfold : ∀ (transactions : List Value) (p : Progress), WellKeyed p.activity →
        WellKeyed (transactions.foldl (indexTransaction rt height) p).activity := by
      intro transactions
      induction transactions with
      | nil => exact fun p h => h
      | cons tx transactions ih' =>
        exact fun p h => ih' _ (wellKeyed_indexTransaction h height tx)
    exact wellKeyed_noteTouched (hfold transactions _ (wellKeyed_indexCreator h height block))
      height

theorem get?_qualificationHeights {activity : Table String WalletState}
    (hkeys : activity.keys.Nodup) (height : Int) (address : String) :
    (qualificationHeights activity height).get? address =
      (activity.get? address).bind (·.qualifiedHeight height) := by
  unfold qualificationHeights
  induction activity with
  | nil => rfl
  | cons e activity ih =>
    obtain ⟨a, state⟩ := e
    obtain ⟨ha, hkeys⟩ : a ∉ Table.keys activity ∧ (Table.keys activity).Nodup :=
      List.nodup_cons.mp hkeys
    rw [List.filterMap_cons, Table.get?_cons]
    by_cases heq : a = address
    · subst heq
      have hrest : Table.get? activity a = none := Table.get?_eq_none.mpr ha
      cases hq : state.qualifiedHeight height with
      | none => simp [ih hkeys, hrest, hq]
      | some q => simp [Table.get?_cons, hq]
    · cases hq : state.qualifiedHeight height with
      | none => simp [ih hkeys, heq]
      | some q => simp [Table.get?_cons, ih hkeys, heq]

/-! ## The digests can always be computed -/

theorem canonicalJsonEntries_eq_self {es : List (String × Value)}
    (h : ∀ e ∈ es, canonicalJsonData e.2 = .ok e.2) : canonicalJsonEntries es = .ok es := by
  induction es with
  | nil => rfl
  | cons e es ih =>
    obtain ⟨k, v⟩ := e
    have hv : canonicalJsonData v = .ok v := h (k, v) (by simp)
    simp [canonicalJsonEntries, hv, ih fun f hf => h f (by simp [hf]), pure, Except.pure]

theorem canonicalJsonData_dict {es : List (String × Value)} (htag : isBytesTagged es = false)
    (h : ∀ e ∈ es, ∃ v, canonicalJsonData e.2 = .ok v) :
    ∃ v, canonicalJsonData (.dict es) = .ok v := by
  have hentries : ∃ fs, canonicalJsonEntries es = .ok fs := by
    clear htag
    induction es with
    | nil => exact ⟨[], rfl⟩
    | cons e es ih =>
      obtain ⟨k, v⟩ := e
      obtain ⟨w, hw⟩ := h (k, v) (by simp)
      obtain ⟨fs, hfs⟩ := ih fun f hf => h f (by simp [hf])
      refine ⟨(k, w) :: fs, ?_⟩
      simp only [canonicalJsonEntries, hw, hfs, ok_bind]
      rfl
  obtain ⟨fs, hfs⟩ := hentries
  exact ⟨_, by simp only [canonicalJsonData, require_pos htag, ok_bind, hfs]; rfl⟩

theorem canonicalHash_ok (h : Host) {value : Value} (hdata : ∃ v, canonicalJsonData value = .ok v) :
    ∃ digest, canonicalHash h value = .ok digest := by
  obtain ⟨v, hv⟩ := hdata
  unfold canonicalHash canonicalJsonBytes canonicalJsonText
  rw [hv]
  exact ⟨_, rfl⟩

/-- A table of addresses is not the shape of the canonical bytes object. -/
theorem isBytesTagged_addresses {es : List (String × Value)}
    (h : ∀ e ∈ es, IsWalletAddress e.1) : isBytesTagged es = false := by
  cases es with
  | nil => rfl
  | cons e es =>
    -- an address begins with a zero, a key of that object with a dollar sign
    have hkey : e.1 ∉ bytesTagKeys := by
      obtain ⟨hex, -, -, he⟩ := h e (by simp)
      have hall : ∀ k ∈ bytesTagKeys, k.toList.head? ≠ some '0' := by decide
      intro hmem
      exact hall _ hmem (by rw [he, String.toList_ofList]; rfl)
    have hcontains : bytesTagKeys.contains e.1 = false := by
      rw [List.contains_eq_mem, decide_eq_false hkey]
    rw [isBytesTagged, List.all_cons, hcontains, Bool.false_and, Bool.false_and]

theorem qualificationEntryDigest_ok (h : Host) (height : Int) (blockHash wallet : String)
    (qualified : Int) :
    ∃ digest, qualificationEntryDigest h height blockHash wallet qualified = .ok digest := by
  refine canonicalHash_ok h (canonicalJsonData_dict rfl fun e he => ?_)
  simp only [List.mem_cons, List.not_mem_nil, or_false] at he
  rcases he with rfl | rfl | rfl | rfl | rfl | rfl <;> exact ⟨_, rfl⟩

theorem snapshotPayload_ok (h : Host) (height : Int) (blockHash : String)
    {qualifications : Table String Int} {digests : Table String String}
    (hq : ∀ e ∈ qualifications, IsWalletAddress e.1)
    (hd : ∀ e ∈ digests, IsWalletAddress e.1) :
    ∃ digest, canonicalHash h (snapshotPayload h height blockHash qualifications digests) =
      .ok digest := by
  refine canonicalHash_ok h (canonicalJsonData_dict rfl fun e he => ?_)
  simp only [List.mem_cons, List.not_mem_nil, or_false] at he
  rcases he with rfl | rfl | rfl | rfl | rfl | rfl
  · exact ⟨_, rfl⟩
  · exact ⟨_, rfl⟩
  · exact ⟨_, rfl⟩
  · exact ⟨_, rfl⟩
  · refine canonicalJsonData_dict (isBytesTagged_addresses fun e he => ?_) fun e he => ?_
    · obtain ⟨f, hf, rfl⟩ := List.mem_map.mp he
      exact hq f hf
    · obtain ⟨f, hf, rfl⟩ := List.mem_map.mp he
      exact ⟨_, rfl⟩
  · refine canonicalJsonData_dict (isBytesTagged_addresses fun e he => ?_) fun e he => ?_
    · obtain ⟨f, hf, rfl⟩ := List.mem_map.mp he
      exact hd f hf
    · obtain ⟨f, hf, rfl⟩ := List.mem_map.mp he
      exact ⟨_, rfl⟩

/-- A reference on the chain is the position and the hash of a block. -/
theorem onChain_iff {chain : List Dict} {height : Int} {blockHash : String} :
    onChain rt chain height blockHash = true ↔ ∃ (n : Nat) (hn : n < chain.length), height = n ∧
      rt.lower ((chain[n].get "hash").text rt) = rt.lower blockHash := by
  unfold onChain
  rw [Bool.and_eq_true, decide_eq_true_eq]
  constructor
  · rintro ⟨hpos, href⟩
    split at href
    · next block hblock =>
      obtain ⟨hn, rfl⟩ := List.getElem?_eq_some_iff.mp hblock
      exact ⟨height.toNat, hn, by omega, by simpa using href⟩
    · cases href
  · rintro ⟨n, hn, rfl, hhash⟩
    simp [hn, hhash]

/-- At a reference on the chain the snapshot is taken, from the whole traversal. -/
theorem qualificationSnapshot_eq_ok (h : Host) {chain : List Dict} (hchain : CanonicalChain chain)
    {n : Nat} {blockHash : String} (href : onChain h.toRuntime chain n blockHash = true) :
    ∃ (snapshot : Snapshot) (activity : Table String WalletState),
      qualificationSnapshot h chain n blockHash = .ok snapshot ∧
      (∀ address, Indexed h.toRuntime address chain (n + 1) (activity.get? address)) ∧
      ∀ address, snapshot.qualificationHeights.get? address =
        (activity.get? address).bind (·.qualifiedHeight n) := by
  obtain ⟨m, hn, hm, -⟩ := onChain_iff.mp href
  obtain rfl : n = m := by omega
  obtain ⟨activity, hrun, hindexed⟩ := @indexed_of_traversal h.toRuntime chain hchain
    (n + 1) hn
  have hempty : WellKeyed [] := ⟨List.nodup_nil, by simp [Table.keys]⟩
  have hkeyed : WellKeyed activity := wellKeyed_traversal hempty hrun
  have hq : ∀ e ∈ qualificationHeights activity n, IsWalletAddress e.1 := by
    intro e he
    obtain ⟨f, hf, hfe⟩ := List.mem_filterMap.mp he
    obtain ⟨q, -, rfl⟩ := Option.map_eq_some_iff.mp hfe
    exact hkeyed.address _ (List.mem_map_of_mem hf)
  obtain ⟨digests, hdigests, hd⟩ : ∃ digests : Table String String,
      ((qualificationHeights activity n).mapM fun e => do
        return (e.1, ← qualificationEntryDigest h n blockHash e.1 e.2)) = .ok digests ∧
      ∀ e ∈ digests, IsWalletAddress e.1 := by
    generalize qualificationHeights activity n = qualifications at hq
    induction qualifications with
    | nil => exact ⟨[], rfl, by simp⟩
    | cons e rest ih =>
      obtain ⟨digests, hdigests, hd⟩ := ih fun f hf => hq f (by simp [hf])
      obtain ⟨digest, hdigest⟩ := qualificationEntryDigest_ok h n blockHash e.1 e.2
      refine ⟨(e.1, digest) :: digests, ?_, ?_⟩
      · rw [List.mapM_cons, hdigests, hdigest]
        rfl
      · simpa using ⟨hq e (by simp), fun a b hab => hd (a, b) hab⟩
  obtain ⟨digest, hdigest⟩ := snapshotPayload_ok h n blockHash hq hd
  have hsnapshot : qualificationSnapshot h chain n blockHash = .ok {
      version := indexVersion
      reviewerPolicyVersion
      height := n
      blockHash := h.lower blockHash
      qualificationHeights := qualificationHeights activity n
      qualificationEntryDigests := digests
      digest } := by
    unfold qualificationSnapshot
    rw [require_pos href, ok_bind, Int.toNat_natCast, hrun, ok_bind]
    dsimp only
    rw [hdigests, ok_bind, hdigest]
    rfl
  exact ⟨_, activity, hsnapshot, hindexed, get?_qualificationHeights hkeyed.nodup n⟩

end ReportReviewerIndex

/-! ## The status from the index -/

open ReportReviewerIndex

section Status

variable {chain : List Dict} (h : CanonicalChain chain)

/-- A qualification over a prefix of the chain is one over the chain. -/
theorem activityUpTo_take (address : String) {m n : Nat} (hmn : m ≤ n) :
    activityUpTo rt address (chain.take n) m = activityUpTo rt address chain m := by
  induction m with
  | zero => rfl
  | succ m ih =>
    rw [activityUpTo, activityUpTo, ih (by omega), List.getElem?_take_of_lt (by omega)]

include h

/-- A truthy hash is compared without its white space and in lower case. -/
theorem blockHashText_eq {k : Nat} (hk : k < chain.length) :
    blockHashText rt chain[k] = rt.lower (strip ((chain[k].get "hash").text rt)) := by
  have htruthy := h.hash _ (List.getElem_mem hk)
  simp only [blockHashText, Value.trimmed, htruthy, if_true]

/-- The search of `status_at_reference` finds the least qualifying height. -/
theorem firstQualifiedHeight_eq {address : String} {q n : Nat} (hq : q ≤ n)
    (hn : n < chain.length) (hqualifies : (activityUpTo rt address chain (q + 1)).qualifies q)
    (hbelow : ∀ j < q, ¬(activityUpTo rt address chain (j + 1)).qualifies j) :
    firstQualifiedHeight rt address chain 1
      ((List.range (n + 1)).map fun j : Nat => (j : Int)) = .ok (some (q : Int)) := by
  have hverdict : ∀ {j : Nat}, j < chain.length → ∀ rest : List Int,
      ∃ evidence : Qualification,
        (evidence.overallQualified = true ↔
          (activityUpTo rt address chain (j + 1)).qualifies j) ∧
        firstQualifiedHeight rt address chain 1 ((j : Int) :: rest) =
          if evidence.overallQualified then .ok (some (j : Int))
          else firstQualifiedHeight rt address chain 1 rest := by
    intro j hj rest
    obtain ⟨evidence, hevidence, hiff⟩ := @qualification_verdict rt chain h address j hj
      { blockHeight := j
        blockHash := rt.lower (strip ((chain[j].get "hash").text rt)) } rfl (by
        rw [← blockHashText_eq h hj, blockHashText_lower_strip])
    refine ⟨evidence, hiff, ?_⟩
    rw [firstQualifiedHeight, h.findPy_eq hj]
    simp only [ok_bind, hevidence]
  have hsearch : ∀ d m, m + d = q → firstQualifiedHeight rt address chain 1
      ((List.range' m (n + 1 - m)).map fun j : Nat => (j : Int)) = .ok (some (q : Int)) := by
    intro d
    induction d with
    | zero =>
      intro m hm
      obtain rfl : m = q := hm
      have hrange : List.range' m (n + 1 - m) = m :: List.range' (m + 1) (n - m) := by
        rw [show n + 1 - m = (n - m) + 1 by omega, List.range'_succ]
      obtain ⟨evidence, hiff, heq⟩ := hverdict (j := m) (by omega)
        ((List.range' (m + 1) (n - m)).map fun j : Nat => (j : Int))
      rw [hrange, List.map_cons, heq, if_pos (hiff.mpr hqualifies)]
    | succ d ih =>
      intro m hm
      have hrange : List.range' m (n + 1 - m) = m :: List.range' (m + 1) (n + 1 - (m + 1)) := by
        rw [show n + 1 - m = (n + 1 - (m + 1)) + 1 by omega, List.range'_succ]
      obtain ⟨evidence, hiff, heq⟩ := hverdict (j := m) (by omega)
        ((List.range' (m + 1) (n + 1 - (m + 1))).map fun j : Nat => (j : Int))
      rw [hrange, List.map_cons, heq, if_neg fun hq => hbelow m (by omega) (hiff.mp hq)]
      exact ih (m + 1) (by omega)
  rw [List.range_eq_range']
  exact hsearch q 0 (Nat.zero_add q)

/-- The plain scan has the standing of the recorded height. -/
theorem standingAtReference_eq {address : String} {n : Nat} (hn : n < chain.length)
    {head : FinalizedHead} (hheight : head.blockHeight = n)
    (hhash : blockHashText rt chain[n] = rt.lower (strip head.blockHash)) {o : Option WalletState}
    (ho : Indexed rt address chain (n + 1) o) (policyVersion : Int) :
    standingAtReference rt address
        { height := n, blockHash := rt.lower (strip head.blockHash), blocks := chain.take (n + 1) }
        head policyVersion =
      standingAtIndex address policyVersion (o.bind (·.qualifiedHeight n)) := by
  have hlength : n < (chain.take (n + 1)).length := by rw [List.length_take]; omega
  have hhash' : blockHashText rt (chain.take (n + 1))[n] = rt.lower (strip head.blockHash) := by
    rw [List.getElem_take, hhash]
  unfold standingAtReference standingAtIndex
  cases hgrants : bootstrapEstablishedReviewers policyVersion with
  | error e => rfl
  | ok grants =>
    obtain ⟨rfl, rfl⟩ : policyVersion = 1 ∧ grants = [] := by
      simp only [bootstrapEstablishedReviewers, bind_eq_ok, pure_eq_ok] at hgrants
      obtain ⟨policy, hpolicy, rfl⟩ := hgrants
      refine ⟨reviewerPolicy_eq_ok hpolicy, ?_⟩
      simp only [reviewerPolicy, bind_eq_ok, pure_eq_ok] at hpolicy
      obtain ⟨-, -, rfl⟩ := hpolicy
      rfl
    obtain ⟨evidence, hevidence, hiff⟩ := @qualification_verdict rt (chain.take (n + 1))
      (h.take (n + 1)) address n hlength head hheight hhash'
    rw [activityUpTo_take address (le_refl _)] at hiff
    simp only [ok_bind, List.not_mem_nil, if_false, hevidence]
    obtain ⟨hleast, hnone⟩ := ho.recorded
    cases hq : o.bind (·.qualifiedHeight n) with
    | none =>
      have hnot := hnone hq n (by omega) (le_refl _)
      rw [Int.toNat_natCast] at hnot
      rw [if_pos fun hov => hnot (hiff.mp hov)]
    | some q =>
      obtain ⟨⟨hq0, hqn, hqualifies⟩, hbelow⟩ := hleast q hq
      obtain ⟨m, rfl⟩ : ∃ m : Nat, q = m := ⟨q.toNat, by omega⟩
      have hmn : m ≤ n := by omega
      rw [Int.toNat_natCast] at hqualifies
      -- the wallet still qualifies at the reference
      have hreference : (activityUpTo rt address chain (n + 1)).qualifies n := by
        obtain ⟨state, hstate, x, hx, hxm⟩ := (ho.qualifies_iff (by omega)).mp hqualifies
        exact (ho.qualifies_iff (by omega)).mpr ⟨state, hstate, x, hx, by omega⟩
      have hfirst := @firstQualifiedHeight_eq rt (chain.take (n + 1)) (h.take (n + 1)) address m n
        hmn
        hlength (by rwa [activityUpTo_take address (by omega)]) fun j hj hj' => by
          rw [activityUpTo_take address (by omega)] at hj'
          have := hbelow ⟨Int.natCast_nonneg j, by omega, by rwa [Int.toNat_natCast]⟩
          omega
      have hrange : ((n : Int) + 1).toNat = n + 1 := by omega
      rw [if_neg (not_not.mpr (hiff.mpr hreference)), hrange, hfirst]
      rfl

/-- The status from the traversed states is the one from the chain. -/
theorem statusAtReferenceIndexed_eq {n : Nat} (hn : n < chain.length) {blockHash : String}
    (hhash : rt.lower ((chain[n].get "hash").text rt) = rt.lower blockHash)
    {states : String → Option WalletState}
    (hstates : ∀ address, Indexed rt address chain (n + 1) (states address))
    (reviewerAddress : Value) (store : ReviewerStore) (policyVersion ruleVersion : Int) :
    statusAtReferenceIndexed rt reviewerAddress { blockHeight := n, blockHash } store policyVersion
        ruleVersion ((NativeTransfer.normalizeWalletAddress rt reviewerAddress).bind
          fun address => (states address).bind (·.qualifiedHeight n)) =
      statusAtReference rt reviewerAddress chain { blockHeight := n, blockHash } store policyVersion
        ruleVersion := by
  have hhash' : blockHashText rt chain[n] = rt.lower (strip blockHash) := by
    rw [blockHashText_eq h hn, ← rt.strip_lower, hhash, rt.strip_lower]
  unfold statusAtReferenceIndexed statusAtReference
  cases NativeTransfer.normalizeWalletAddress rt reviewerAddress with
  | none => rfl
  | some address =>
    have hstanding := @standingAtReference_eq rt chain h address n hn
      { blockHeight := n, blockHash } rfl hhash' _ (hstates address) policyVersion
    have hcontext := @CanonicalChain.finalizedContext_eq rt chain h n hn
      { blockHeight := n, blockHash } rfl hhash'
    dsimp only
    rw [hcontext, ok_bind, Option.bind_some, ← hstanding]
    all_goals cases frozenStatus store address n policyVersion ruleVersion <;> rfl

end Status

/-- **The reviewer index agrees with the plain scan.** The snapshot of a finalized
reference records for every wallet the least height at which it qualifies, if there is
one, and the status from that height is the one from the chain. -/
theorem qualificationSnapshot_agrees (h : Host) {chain : List Dict} (hchain : CanonicalChain chain)
    {height : Int} {blockHash : String} (href : onChain h.toRuntime chain height blockHash = true) :
    ∃ snapshot, qualificationSnapshot h chain height blockHash = .ok snapshot ∧
      (∀ address q, snapshot.qualificationHeights.get? address = some q →
        IsLeast {k | 0 ≤ k ∧ k ≤ height ∧ qualifiedAt h.toRuntime address chain k = .ok true} q) ∧
      (∀ address, snapshot.qualificationHeights.get? address = none →
        ∀ k, 0 ≤ k → k ≤ height → qualifiedAt h.toRuntime address chain k = .ok false) ∧
      ∀ (reviewerAddress : Value) (store : ReviewerStore) (policyVersion ruleVersion : Int),
        statusAtReferenceIndexed h.toRuntime reviewerAddress { blockHeight := height, blockHash }
            store policyVersion ruleVersion
            ((NativeTransfer.normalizeWalletAddress h.toRuntime reviewerAddress).bind
              snapshot.qualificationHeights.get?) =
          statusAtReference h.toRuntime reviewerAddress chain { blockHeight := height, blockHash }
            store policyVersion ruleVersion := by
  obtain ⟨n, hn, rfl, hequal⟩ := onChain_iff.mp href
  obtain ⟨snapshot, activity, hsnapshot, hindexed, hrecorded⟩ :=
    qualificationSnapshot_eq_ok h hchain href
  have hverdict : ∀ address (k : Int), 0 ≤ k → k ≤ n →
      ∃ b, qualifiedAt h.toRuntime address chain k = .ok b ∧ (b = true ↔
        (activityUpTo h.toRuntime address chain (k.toNat + 1)).qualifies k) := by
    intro address k hk0 hkn
    obtain ⟨m, rfl⟩ : ∃ m : Nat, k = m := ⟨k.toNat, by omega⟩
    have hm : m < chain.length := by omega
    obtain ⟨evidence, hevidence, hiff⟩ := @qualification_verdict h.toRuntime chain hchain
      address m hm (headOf h.toRuntime chain m) rfl (headOf_hash hm)
    refine ⟨evidence.overallQualified, ?_, hiff⟩
    unfold qualifiedAt reviewerPolicyVersion
    rw [hevidence]
    rfl
  refine ⟨snapshot, hsnapshot, ?_, ?_, ?_⟩
  · intro address q hq
    rw [hrecorded] at hq
    convert (hindexed address).recorded.1 q hq using 1
    ext k
    constructor
    · rintro ⟨hk0, hkn, hk⟩
      obtain ⟨b, hb, hiff⟩ := hverdict address k hk0 hkn
      rw [hb] at hk
      cases hk
      exact ⟨hk0, hkn, hiff.mp rfl⟩
    · rintro ⟨hk0, hkn, hk⟩
      obtain ⟨b, hb, hiff⟩ := hverdict address k hk0 hkn
      exact ⟨hk0, hkn, by rw [hb, hiff.mpr hk]⟩
  · intro address hq k hk0 hkn
    rw [hrecorded] at hq
    obtain ⟨b, hb, hiff⟩ := hverdict address k hk0 hkn
    have hnot := (hindexed address).recorded.2 hq k hk0 hkn
    rw [hb, Bool.eq_false_iff.mpr fun hb => hnot (hiff.mp hb)]
  · intro reviewerAddress store policyVersion ruleVersion
    have hheights : snapshot.qualificationHeights.get? = fun address =>
        (activity.get? address).bind (·.qualifiedHeight n) := funext hrecorded
    rw [hheights]
    exact statusAtReferenceIndexed_eq hchain hn hequal hindexed reviewerAddress store policyVersion
      ruleVersion

/-! ## The status of a reporter -/

/-- The digest that is recorded for a wallet. -/
theorem get?_entryDigests {digestOf : String → Int → Py String} {heights : Table String Int}
    {digests : Table String String} {wallet : String} {q : Int}
    (h : (heights.mapM fun e => do return (e.1, ← digestOf e.1 e.2)) = .ok digests)
    (hq : heights.get? wallet = some q) :
    ∃ digest, digestOf wallet q = .ok digest ∧ digests.get? wallet = some digest := by
  induction heights generalizing digests with
  | nil => cases hq
  | cons e heights ih =>
    obtain ⟨a, p⟩ := e
    simp only [List.mapM_cons, bind_eq_ok, pure_eq_ok] at h
    obtain ⟨entry, ⟨digest, hdigest, rfl⟩, rest, hrest, rfl⟩ := h
    rw [Table.get?_cons] at hq ⊢
    by_cases ha : a = wallet
    · subst ha
      rw [if_pos rfl] at hq ⊢
      obtain rfl := Option.some.inj hq
      exact ⟨digest, hdigest, rfl⟩
    · rw [if_neg ha] at hq ⊢
      exact ih hrest hq

/-- A report whose reference is indexed is checked against the status on the chain. -/
theorem getReportReviewerStatusAtReference_eq (h : Host) {chain : List Dict}
    (hchain : CanonicalChain chain) {height : Int} {blockHash : String}
    (href : onChain h.toRuntime chain height blockHash = true)
    (hnormal : h.lower (strip blockHash) = blockHash) {snapshot : Snapshot}
    (hsnapshot : qualificationSnapshot h chain height blockHash = .ok snapshot)
    {index : Table String Snapshot}
    (hindex : index.get? (referenceKey h.toRuntime height blockHash) = some snapshot)
    (store : ReviewerStore) {reviewerAddress : Value} {wallet : String}
    (hwallet : NativeTransfer.normalizeWalletAddress h.toRuntime reviewerAddress = some wallet) :
    getReportReviewerStatusAtReference h chain index store reviewerAddress height
        (.str blockHash) =
      (statusAtReference h.toRuntime (.str wallet) chain { blockHeight := height, blockHash } store
        reviewerPolicyVersion reputationRuleVersion).map (·.status) := by
  obtain ⟨n, hn, rfl, hequal⟩ := onChain_iff.mp href
  obtain ⟨snapshot', activity, hsnapshot', hindexed, hrecorded⟩ :=
    qualificationSnapshot_eq_ok h hchain href
  obtain rfl : snapshot = snapshot' := Except.ok.inj (hsnapshot.symm.trans hsnapshot')
  have hlower : h.lower blockHash = blockHash := by rw [← hnormal, h.lower_lower]
  have hbounds : (0 : Int) ≤ n ∧ (n : Int) < chain.length := by omega
  have hblock : chain[(n : Int).toNat]? = some chain[n] := List.getElem?_eq_getElem hn
  rw [hlower] at hequal
  -- the status from the recorded height is the one from the chain
  have hstatus := statusAtReferenceIndexed_eq hchain hn (hequal.trans hlower.symm) hindexed
    (.str wallet) store reviewerPolicyVersion reputationRuleVersion
  rw [NativeTransfer.normalizeWalletAddress_str
    (NativeTransfer.isWalletAddress_of_normalize hwallet), Option.bind_some, ← hrecorded] at hstatus
  rw [← hstatus]
  simp only [qualificationSnapshot, bind_eq_ok, require_eq_ok, pure_eq_ok] at hsnapshot
  obtain ⟨-, -, states, -, digests, hdigests, digest, -, rfl⟩ := hsnapshot
  unfold getReportReviewerStatusAtReference
  simp only [require_pos hbounds, ok_bind, Value.trimmed_str, hnormal, hindex, orRaise, hblock,
    hlower, hequal, hwallet, and_self, require_pos]
  generalize hq : Table.get? _ wallet = recorded
  cases recorded with
  | none =>
    generalize statusAtReferenceIndexed h.toRuntime _ _ _ _ _ _ = result
    cases result <;> rfl
  | some q =>
    obtain ⟨entry, hentry, hget⟩ := get?_entryDigests hdigests hq
    simp only [hentry, ok_bind, hget, require_pos]
    generalize statusAtReferenceIndexed h.toRuntime _ _ _ _ _ _ = result
    cases result <;> rfl

/-! ## A wallet with two minted submissions

The wallet mints in the blocks 0 and 1 of a chain of 17 blocks. The creator path opens
at height 1, the wallet is old enough at height 15. -/

namespace SampleIndex

def reviewer : String := "0x1111111111111111111111111111111111111111"

def minting (i : Nat) : Dict :=
  if i < 2 then
    [("creator_wallet", .str reviewer), ("submission_id", .str (if i = 0 then "one" else "two"))]
  else []

def block (i : Nat) : Dict := [("index", .int i), ("hash", .str "aa")] ++ minting i

def chain : List Dict := (List.range 17).map block

def digest : String := "aaaaaaaaaaaaaaaaaaaaaaaaaaaaaaaaaaaaaaaaaaaaaaaaaaaaaaaaaaaaaaaa"

def snapshot : Snapshot where
  version := 1
  reviewerPolicyVersion := 1
  height := 16
  blockHash := "aa"
  qualificationHeights := [(reviewer, 15)]
  qualificationEntryDigests := [(reviewer, digest)]
  digest := digest

theorem canonicalChain : CanonicalChain chain where
  height i hi := by
    simp only [chain, List.getElem_map, List.getElem_range]
    rfl
  hash b hb := by
    obtain ⟨i, -, rfl⟩ := List.mem_map.mp hb
    rfl
  transactions b hb := by
    obtain ⟨i, -, rfl⟩ := List.mem_map.mp hb
    refine ⟨[], ?_⟩
    show (Dict.get ([("index", .int i), ("hash", .str "aa")] ++ minting i)
      "native_transactions").listOrEmpty = _
    unfold minting
    split <;> rfl

theorem snapshot_eq :
    qualificationSnapshot (Host.sample none none) chain 16 "aa" = .ok snapshot := by
  decide +kernel

end SampleIndex

theorem qualificationSnapshot_agrees_sample :
    qualificationSnapshot (Host.sample none none) SampleIndex.chain 16 "aa" =
        .ok SampleIndex.snapshot ∧
      IsLeast {k | 0 ≤ k ∧ k ≤ 16 ∧
        qualifiedAt asciiRuntime SampleIndex.reviewer SampleIndex.chain k = .ok true} 15 := by
  obtain ⟨snapshot, hsnapshot, hleast, -, -⟩ := @qualificationSnapshot_agrees
    (Host.sample none none)
    SampleIndex.chain SampleIndex.canonicalChain 16 "aa" (by decide +kernel)
  obtain rfl : SampleIndex.snapshot = snapshot := by
    rw [SampleIndex.snapshot_eq] at hsnapshot
    exact Except.ok.inj hsnapshot
  exact ⟨hsnapshot, hleast SampleIndex.reviewer 15 rfl⟩

end ZoidbergChain
