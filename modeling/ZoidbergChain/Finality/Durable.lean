import ZoidbergChain.Finality.Service
import ZoidbergChain.Python.Order

/-!
# Durable finality

The guard of every document writer (storage.py, `_preserve_finality`): it merges the
finalization records and the attestations of the durable document into the replacement, or
raises.

- `preserveFinality` is the guard, `saves` a run of saves.
- `Guarded`: what a document satisfies that the guard has let through.
- `durableFinality`: no later save loses or changes a record, its block or its ancestry.
-/

namespace ZoidbergChain

open Python

namespace Finality

/-! ## The guard -/

/-- `raise FinalityStateConflictError(message)`. -/
def stateConflict (message : String) : PyError := { exc := .finalityStateConflictError, message }

/-- `targets[block.get("index")] = block.get("hash")`. -/
def addTarget (targets : Table HashKey Value) (block : Value) : Py (Table HashKey Value) := do
  let b ← block.asDict
  let key ← (b.get "index").hashKey
  .ok (targets.set key (b.get "hash"))

/-- `targets.get(key)`. -/
def targetHash (targets : Table HashKey Value) (key : HashKey) : Value :=
  (targets.get? key).getD .null

/-- A height of `proofs`, and its record. -/
structure Proof where
  height : Value
  record : Value

/-- The records by height. -/
abbrev Proofs := Table HashKey Proof

/-- A record of the durable document. -/
def Proofs.addDurable (proofs : Proofs) (record : Value) : Py Proofs := do
  let height ← record.item "block_height"
  let key ← height.hashKey
  require ((proofs.get? key).isNone = true) (stateConflict "Duplicate durable finalized height.")
  .ok (proofs.set key { height, record })

/-- A record of the replacement: an alternative proof of a finalized block is dropped. -/
def Proofs.addReplacement (proofs : Proofs) (record : Value) : Py Proofs := do
  let height ← record.item "block_height"
  let key ← height.hashKey
  match proofs.get? key with
  | none => .ok (proofs.set key { height, record })
  | some prior => do
    let priorHash ← prior.record.item "block_hash"
    let blockHash ← record.item "block_hash"
    require (priorHash.pyEq blockHash = true)
      (stateConflict "Cannot replace an equal-height finalized block.")
    .ok proofs

/-- `n <= boundary`. -/
def atMost (n : Nat) (boundary : Value) : Py Bool :=
  if boundary.isNumber then
    match boundary.extended? with
    | some y => .ok (decide (((n : Rat) : WithTop Rat) ≤ y))
    | none => .ok false
  else .error (.type "'<=' not supported between these instances")

/-- `boundary + 1`, as the end of a slice. -/
def sliceEnd : Value → Py Int
  | .int n => .ok (n + 1)
  | .bool b => .ok (if b then 2 else 1)
  | _ => .error (.type "slice indices must be integers")

/-- `xs[:stop]`: a negative end counts from the end. -/
def takePy (xs : List Value) (stop : Int) : List Value :=
  xs.take (if 0 ≤ stop then stop else xs.length + stop).toNat

/-- `v[:stop]`. -/
def sliceOf (v : Value) (stop : Int) : Py (List Value) :=
  match v with
  | .list xs => .ok (takePy xs stop)
  | .str _ | .bytes _ => do
    let items ← v.iter
    .ok (takePy items stop)
  | _ => .error (.type "object cannot be sliced")

/-- The finalized ancestry from `height` on: every block declares its position, and links
to the hash before it. -/
def checkAncestry (height : Nat) (previous : Value) : List Value → Py Unit
  | [] => .ok ()
  | block :: rest => do
    let b ← block.asDict
    require ((b.get "index").pyEq (.int height) = true ∧
        (height = 0 ∨ (b.get "previous_hash").pyEq previous = true))
      (stateConflict "Finalized ancestry is incomplete or incompatible.")
    checkAncestry (height + 1) (b.get "hash") rest

/-- Each record proves the block that the chain has at its height. -/
def checkTargets (targets : Table HashKey Value) : Proofs → Py Unit
  | [] => .ok ()
  | (key, proof) :: rest => do
    let blockHash ← proof.record.item "block_hash"
    require ((targetHash targets key).pyEq blockHash = true)
      (stateConflict "Replacement contradicts a finalized target.")
    checkTargets targets rest

/-- `(b.get("index"), b.get("hash"), b.get("previous_hash"))`. -/
def blockHead (block : Value) : Py (List Value) := do
  let b ← block.asDict
  .ok [b.get "index", b.get "hash", b.get "previous_hash"]

/-- `==` of two lists of tuples. -/
def sameHeads (heads heads' : List (List Value)) : Bool :=
  heads.length == heads'.length &&
    (heads.zip heads').all fun p =>
      p.1.length == p.2.length && (p.1.zip p.2).all fun q => q.1.isOrEq q.2

/-- The ancestry of the durable records is the same in the old and the new chain. -/
def checkOldAncestry (oldRecords : List Value) (oldChain : Value) (chain : List Value) :
    Py Unit := do
  let heights ← oldRecords.mapM (·.item "block_height")
  let oldBoundary ← maxPy heights
  let stop ← sliceEnd oldBoundary
  let oldBlocks ← sliceOf oldChain stop
  let oldHeads ← oldBlocks.mapM blockHead
  let heads ← (takePy chain stop).mapM blockHead
  require (sameHeads oldHeads heads = true) (stateConflict "Cannot replace finalized ancestry.")

/-- The checks that are made when a height is finalized. -/
def checkProofs (durable : Dict) (oldRecords chain : List Value)
    (targets : Table HashKey Value) (proofs : Proofs) : Py Unit := do
  let boundary ← maxPy (proofs.values.map Proof.height)
  let short ← atMost chain.length boundary
  require (short = false) (stateConflict "Replacement omits finalized ancestry.")
  let stop ← sliceEnd boundary
  checkAncestry 0 .null (takePy chain stop)
  checkTargets targets proofs
  if oldRecords = [] then .ok ()
  else checkOldAncestry oldRecords ((durable.get "chain").orElse (.list [])) chain

/-- `{k: v for k, v in record.items() if k != "signature"}`. -/
def unsigned : Value → Value
  | .dict es => .dict (es.filter fun e => e.1 ≠ "signature")
  | v => v

/-- An attestation of either document: the first one of a message is retained. -/
def addVote (targets : Table HashKey Value) (allowVoteReorg : Bool)
    (votes : Table HashKey Value) (record : Value) : Py (Table HashKey Value) := do
  let height ← record.item "block_height"
  let heightKey ← height.hashKey
  let blockHash ← record.item "block_hash"
  if (targetHash targets heightKey).pyEq blockHash = true then do
    let identity ← record.item "message"
    let key ← identity.hashKey
    match votes.get? key with
    | none => .ok (votes.set key record)
    | some existing => do
      require ((unsigned existing).isOrEq (unsigned record) = true)
        (stateConflict "Conflicting fields for a retained signed finality message.")
      .ok votes
  else if allowVoteReorg then .ok votes
  else .error (stateConflict
    "Save would discard a finality vote; use guarded canonical reorganization.")

/-- A section that must be a list where it is not empty. -/
def listSection (document : Dict) (name : String) : Py (List Value) :=
  match (document.get name).orElse (.list []) with
  | .list xs => .ok xs
  | _ => .error (.type "can only concatenate list to list")

/-- What the attestations are sorted by. -/
def voteOrder (vote : Value) : Py (List Value × Value) := do
  let height ← vote.item "block_height"
  let blockHash ← vote.item "block_hash"
  let validator ← vote.item "validator_address"
  let signature ← vote.item "signature"
  .ok ([height, blockHash, validator, signature], vote)

/-- `sorted(votes, key=...)`. -/
def sortVotes (votes : List Value) : Py (List Value) := do
  let keyed ← votes.mapM voteOrder
  let sorted ← sortPy (fun a b => Value.ltList a.1 b.1) keyed
  .ok (sorted.map Prod.snd)

/-- `_preserve_finality`. -/
def preserveFinality (durable replacement : Dict) (allowVoteReorg : Bool) : Py Dict := do
  let chain ← (replacement.get "chain").listOrEmpty
  let targets ← chain.foldlM addTarget []
  let oldRecords ← (durable.get "finalized_blocks").listOrEmpty
  let durableProofs ← oldRecords.foldlM Proofs.addDurable []
  let newRecords ← (replacement.get "finalized_blocks").listOrEmpty
  let proofs ← newRecords.foldlM Proofs.addReplacement durableProofs
  (if proofs.isEmpty then .ok () else checkProofs durable oldRecords chain targets proofs)
  let oldVotes ← listSection durable "finality_attestations"
  let newVotes ← listSection replacement "finality_attestations"
  let votes ← (oldVotes ++ newVotes).foldlM (addVote targets allowVoteReorg) []
  let sortedVotes ← sortVotes votes.values
  let sortedProofs ← sortPy (fun a b => a.height.lt b.height) proofs.values
  .ok ((replacement.set "finality_attestations" (.list sortedVotes)).set
    "finalized_blocks" (.list (sortedProofs.map Proof.record)))

/-- The arguments of a save. -/
structure Save where
  replacement : Dict
  allowVoteReorg : Bool

/-- The durable document after a save; one that raises changes nothing. -/
def save (durable : Dict) (s : Save) : Dict :=
  match preserveFinality durable s.replacement s.allowVoteReorg with
  | .ok document => document
  | .error _ => durable

/-- The durable document after a run of saves. -/
def saves (durable : Dict) (run : List Save) : Dict := run.foldl save durable

/-! ## Targets -/

theorem item_eq_ok {v w : Value} {key : String} (h : v.item key = .ok w) :
    ∃ d, v = .dict d ∧ Dict.get? d key = some w := by
  cases v with
  | dict d =>
    refine ⟨d, rfl, ?_⟩
    rw [Value.item, Dict.index] at h
    split at h
    · next heq => rw [heq, Except.ok.inj h]
    · cases h
  | _ => cases h

theorem asDict_eq_ok {v : Value} {d : Dict} (h : v.asDict = .ok d) : v = .dict d := by
  cases v <;> cases h
  rfl

/-- Every block of the chain is a dictionary, and a target is the hash of one of them. -/
structure TargetsOf (chain : List Value) (targets : Table HashKey Value) : Prop where
  blocks : ∀ v ∈ chain, ∃ b, v = .dict b
  target : ∀ key hash, targets.get? key = some hash → ∃ b : Dict, .dict b ∈ chain ∧
    (b.get "index").hashKey = .ok key ∧ b.get "hash" = hash

theorem targetsOf_chain {chain : List Value} {targets : Table HashKey Value}
    (ht : chain.foldlM addTarget [] = .ok targets) : TargetsOf chain targets := by
  induction chain using List.reverseRecOn generalizing targets with
  | nil =>
    cases foldlM_nil_eq_ok.mp ht
    exact ⟨nofun, nofun⟩
  | append_singleton chain v ih =>
    obtain ⟨before, hbefore, hlast⟩ := foldlM_append_eq_ok.mp ht
    obtain ⟨after, hafter, hnil⟩ := foldlM_cons_eq_ok.mp hlast
    obtain rfl := foldlM_nil_eq_ok.mp hnil
    obtain ⟨hblocks, htarget⟩ := ih hbefore
    obtain ⟨b, hb, hadd⟩ := bind_eq_ok.mp hafter
    obtain ⟨key, hkey, hset⟩ := bind_eq_ok.mp hadd
    obtain rfl := asDict_eq_ok hb
    cases hset
    refine ⟨fun w hw => ?_, fun key' hash hget => ?_⟩
    · obtain hw | hw := List.mem_append.mp hw
      · exact hblocks w hw
      · exact ⟨b, List.mem_singleton.mp hw⟩
    · obtain ⟨rfl, rfl⟩ | ⟨-, hget⟩ := Table.get?_set_eq_some.mp hget
      · exact ⟨b, by simp, hkey, rfl⟩
      · obtain ⟨b', hmem, hrest⟩ := htarget key' hash hget
        exact ⟨b', List.mem_append_left _ hmem, hrest⟩

/-! ## Proofs -/

/-- Every record is under its own height. -/
structure Proofs.Keyed (proofs : Proofs) : Prop where
  nodup : proofs.keys.Nodup
  proof : ∀ e ∈ proofs, e.2.record.item "block_height" = .ok e.2.height ∧
    e.2.height.hashKey = .ok e.1

/-- The records, in the order of the table. -/
def Proofs.records (proofs : Proofs) : List Value := proofs.values.map Proof.record

theorem Proofs.Keyed.snoc {proofs : Proofs} (hp : proofs.Keyed) {record height : Value}
    {key : HashKey} (hheight : record.item "block_height" = .ok height)
    (hkey : height.hashKey = .ok key) (hnew : proofs.get? key = none) :
    Proofs.Keyed (proofs.set key ⟨height, record⟩) ∧
      proofs.set key ⟨height, record⟩ = proofs ++ [(key, ⟨height, record⟩)] := by
  have hset := Table.set_of_notMem (a := (⟨height, record⟩ : Proof)) (Table.get?_eq_none.mp hnew)
  refine ⟨⟨Table.keys_set_nodup hp.nodup, fun e he => ?_⟩, hset⟩
  obtain rfl | he := Table.mem_set he
  · exact ⟨hheight, hkey⟩
  · exact hp.proof e he

theorem Proofs.addDurable_spec {proofs proofs' : Proofs} {record : Value} (hp : proofs.Keyed)
    (h : proofs.addDurable record = .ok proofs') :
    proofs'.Keyed ∧ proofs'.records = proofs.records ++ [record] := by
  obtain ⟨height, hheight, h⟩ := bind_eq_ok.mp h
  obtain ⟨key, hkey, h⟩ := bind_eq_ok.mp h
  obtain ⟨⟨⟩, hnew, h⟩ := bind_eq_ok.mp h
  cases h
  obtain ⟨hkeyed, hset⟩ := hp.snoc hheight hkey (Option.isNone_iff_eq_none.mp
    (require_eq_ok.mp hnew))
  refine ⟨hkeyed, ?_⟩
  rw [hset]
  simp [Proofs.records, Table.values]

/-- The table of the durable document has its records. -/
theorem durableProofs_spec {records : List Value} {proofs : Proofs}
    (h : records.foldlM Proofs.addDurable [] = .ok proofs) :
    proofs.Keyed ∧ proofs.records = records := by
  induction records using List.reverseRecOn generalizing proofs with
  | nil =>
    cases foldlM_nil_eq_ok.mp h
    exact ⟨⟨List.nodup_nil, nofun⟩, rfl⟩
  | append_singleton records record ih =>
    obtain ⟨before, hbefore, hlast⟩ := foldlM_append_eq_ok.mp h
    obtain ⟨after, hafter, hnil⟩ := foldlM_cons_eq_ok.mp hlast
    obtain rfl := foldlM_nil_eq_ok.mp hnil
    obtain ⟨hkeyed, hrecords⟩ := ih hbefore
    obtain ⟨hkeyed', hrecords'⟩ := Proofs.addDurable_spec hkeyed hafter
    exact ⟨hkeyed', by rw [hrecords', hrecords]⟩

theorem Proofs.addReplacement_spec {proofs proofs' : Proofs} {record : Value} (hp : proofs.Keyed)
    (h : proofs.addReplacement record = .ok proofs') : proofs'.Keyed ∧ proofs <+: proofs' := by
  obtain ⟨height, hheight, h⟩ := bind_eq_ok.mp h
  obtain ⟨key, hkey, h⟩ := bind_eq_ok.mp h
  cases hprior : proofs.get? key with
  | none =>
    rw [hprior] at h
    cases h
    obtain ⟨hkeyed, hset⟩ := hp.snoc hheight hkey hprior
    exact ⟨hkeyed, hset ▸ List.prefix_append _ _⟩
  | some prior =>
    rw [hprior] at h
    obtain ⟨priorHash, -, h⟩ := bind_eq_ok.mp h
    obtain ⟨blockHash, -, h⟩ := bind_eq_ok.mp h
    obtain ⟨⟨⟩, -, h⟩ := bind_eq_ok.mp h
    cases h
    exact ⟨hp, List.prefix_refl _⟩

/-- The replacement adds proofs, and keeps those that are there. -/
theorem replacementProofs_spec {records : List Value} {proofs proofs' : Proofs}
    (hp : proofs.Keyed) (h : records.foldlM Proofs.addReplacement proofs = .ok proofs') :
    proofs'.Keyed ∧ proofs <+: proofs' := by
  induction records generalizing proofs with
  | nil =>
    cases foldlM_nil_eq_ok.mp h
    exact ⟨hp, List.prefix_refl _⟩
  | cons record records ih =>
    obtain ⟨next, hnext, h⟩ := foldlM_cons_eq_ok.mp h
    obtain ⟨hkeyed, hprefix⟩ := Proofs.addReplacement_spec hp hnext
    obtain ⟨hkeyed', hprefix'⟩ := ih hkeyed h
    exact ⟨hkeyed', hprefix.trans hprefix'⟩

theorem checkTargets_spec {targets : Table HashKey Value} {proofs : Proofs}
    (h : checkTargets targets proofs = .ok ()) : ∀ e ∈ proofs, ∃ blockHash,
      e.2.record.item "block_hash" = .ok blockHash ∧
      (targetHash targets e.1).pyEq blockHash = true := by
  induction proofs with
  | nil => exact nofun
  | cons e proofs ih =>
    obtain ⟨key, proof⟩ := e
    obtain ⟨blockHash, hhash, h⟩ := bind_eq_ok.mp h
    obtain ⟨⟨⟩, hsame, h⟩ := bind_eq_ok.mp h
    intro e' he'
    obtain rfl | he' := List.mem_cons.mp he'
    · exact ⟨blockHash, hhash, require_eq_ok.mp hsame⟩
    · exact ih h e' he'

/-! ## Heights -/

/-- The record declares the height `n`. -/
def declaresHeight (n : Int) : Value → Bool
  | .dict d => (Dict.get d "block_height").pyEq (.int n)
  | _ => false

theorem declaresHeight_iff {n : Int} {record : Value} : declaresHeight n record = true ↔
    ∃ height, record.item "block_height" = .ok height ∧ height.number? = some (n : Rat) := by
  constructor
  · intro h
    cases record with
    | dict d =>
      rw [declaresHeight, Value.pyEq_int] at h
      cases hget : Dict.get? d "block_height" with
      | none => simp [Dict.get, hget, Value.number?] at h
      | some height =>
        refine ⟨height, by simp [Value.item, Dict.index, hget], ?_⟩
        simpa [Dict.get, hget] using h
    | _ => cases h
  · rintro ⟨height, hitem, hnumber⟩
    obtain ⟨d, rfl, hget⟩ := item_eq_ok hitem
    rw [declaresHeight, Value.pyEq_int, Dict.get, hget]
    exact hnumber

theorem hashKey_of_number {v : Value} {q : Rat} (h : v.number? = some q) :
    v.hashKey = .ok (.number q) := by
  cases v with
  | float f => cases f <;> simp_all [Value.number?, Value.hashKey]
  | _ => simp_all [Value.number?, Value.hashKey]

theorem extended_of_number {v : Value} {q : Rat} (h : v.number? = some q) :
    v.extended? = some ((q : WithTop Rat) : WithBot (WithTop Rat)) := by
  cases v with
  | float f => cases f <;> simp_all [Value.number?, Value.extended?]
  | _ => simp_all [Value.number?, Value.extended?]

/-- The end of a slice is behind an integer or a truth value. -/
theorem sliceEnd_eq_ok {v : Value} {stop : Int} (h : sliceEnd v = .ok stop) :
    v.number? = some ((stop - 1 : Int) : Rat) := by
  cases v with
  | int n =>
    cases h
    simp [Value.number?]
  | bool b => cases b <;> cases h <;> simp [Value.number?]
  | _ => cases h

/-! ## Ancestry -/

theorem forall₂_trans {α : Type} {R : α → α → Prop} (htrans : ∀ a b c, R a b → R b c → R a c)
    {xs ys zs : List α} (hxy : List.Forall₂ R xs ys) (hyz : List.Forall₂ R ys zs) :
    List.Forall₂ R xs zs := by
  induction hxy generalizing zs with
  | nil => exact hyz
  | cons hab _ ih =>
    obtain _ | ⟨hbc, hrest⟩ := hyz
    exact .cons (htrans _ _ _ hab hbc) (ih hrest)

/-- Two blocks that declare the same index, hash and previous hash. -/
def SameHead (block block' : Value) : Prop :=
  ∃ b b' : Dict, block = .dict b ∧ block' = .dict b' ∧
    (b.get "index").isOrEq (b'.get "index") = true ∧
    (b.get "hash").isOrEq (b'.get "hash") = true ∧
    (b.get "previous_hash").isOrEq (b'.get "previous_hash") = true

theorem SameHead.trans {u v w : Value} (huv : SameHead u v) (hvw : SameHead v w) :
    SameHead u w := by
  obtain ⟨a, b, rfl, rfl, hindex, hhash, hprevious⟩ := huv
  obtain ⟨b', c, hb, rfl, hindex', hhash', hprevious'⟩ := hvw
  obtain rfl := Value.dict.inj hb
  exact ⟨a, c, rfl, rfl, Value.isOrEq_trans hindex hindex', Value.isOrEq_trans hhash hhash',
    Value.isOrEq_trans hprevious hprevious'⟩

/-- The two chains have the same blocks up to the height `n`, as far as their heads go. -/
def SameAncestry (n : Int) (chain chain' : List Value) : Prop :=
  List.Forall₂ SameHead (chain.take (n + 1).toNat) (chain'.take (n + 1).toNat)

theorem SameAncestry.trans {n : Int} {chain₁ chain₂ chain₃ : List Value}
    (h : SameAncestry n chain₁ chain₂) (h' : SameAncestry n chain₂ chain₃) :
    SameAncestry n chain₁ chain₃ :=
  forall₂_trans (R := SameHead) (fun _ _ _ => SameHead.trans) h h'

theorem SameAncestry.refl {chain : List Value} (hblocks : ∀ v ∈ chain, ∃ b, v = .dict b)
    (n : Int) : SameAncestry n chain chain := by
  refine List.forall₂_same.mpr fun v hv => ?_
  obtain ⟨b, rfl⟩ := hblocks v (List.mem_of_mem_take hv)
  exact ⟨b, b, rfl, rfl, Value.isOrEq_refl _, Value.isOrEq_refl _, Value.isOrEq_refl _⟩

theorem SameAncestry.mono {n m : Int} {chain chain' : List Value} (h : SameAncestry n chain chain')
    (hmn : m ≤ n) : SameAncestry m chain chain' := by
  have htake := List.forall₂_take (m + 1).toNat h
  rwa [List.take_take, List.take_take, min_eq_left (by omega)] at htake

theorem takePy_of_nonneg {xs : List Value} {stop : Int} (h : 0 ≤ stop) :
    takePy xs stop = xs.take stop.toNat := by
  rw [takePy, if_pos h]

theorem sameHead_of_blockHead {u v : Value} {heads heads' : List Value}
    (hu : blockHead u = .ok heads) (hv : blockHead v = .ok heads')
    (hsame : ((heads.zip heads').all fun q => q.1.isOrEq q.2) = true) : SameHead u v := by
  obtain ⟨b, hb, hheads⟩ := bind_eq_ok.mp hu
  obtain ⟨b', hb', hheads'⟩ := bind_eq_ok.mp hv
  cases hheads
  cases hheads'
  have hall : (b.get "index").isOrEq (b'.get "index") = true ∧
      (b.get "hash").isOrEq (b'.get "hash") = true ∧
      (b.get "previous_hash").isOrEq (b'.get "previous_hash") = true := by
    simpa using hsame
  exact ⟨b, b', asDict_eq_ok hb, asDict_eq_ok hb', hall⟩

/-- The old and the new chain agree up to the largest height of the old records. -/
theorem checkOldAncestry_spec {oldRecords oldChain chain : List Value}
    (h : checkOldAncestry oldRecords (.list oldChain) chain = .ok ()) {record : Value} {n : Int}
    (hrecord : record ∈ oldRecords) (hn : declaresHeight n record = true) :
    SameAncestry n oldChain chain := by
  obtain ⟨heights, hheights, h⟩ := bind_eq_ok.mp h
  obtain ⟨boundary, hboundary, h⟩ := bind_eq_ok.mp h
  obtain ⟨stop, hstop, h⟩ := bind_eq_ok.mp h
  obtain ⟨oldBlocks, hold, h⟩ := bind_eq_ok.mp h
  obtain ⟨oldHeads, holdHeads, h⟩ := bind_eq_ok.mp h
  obtain ⟨heads, hheads, hsame⟩ := bind_eq_ok.mp h
  obtain rfl : takePy oldChain stop = oldBlocks := Except.ok.inj hold
  obtain ⟨hlength, hall⟩ : oldHeads.length = heads.length ∧
      (oldHeads.zip heads).all (fun p =>
        p.1.length == p.2.length && (p.1.zip p.2).all fun q => q.1.isOrEq q.2) = true := by
    simpa [sameHeads] using require_eq_ok.mp hsame
  have holdBlocks := forall₂_of_mapM holdHeads
  have hblocks := forall₂_of_mapM hheads
  -- the height of the record is below the end of the slice
  obtain ⟨height, hitem, hnumber⟩ := declaresHeight_iff.mp hn
  have hle : n ≤ stop - 1 := by
    have hmem : height ∈ heights := by
      obtain ⟨i, hi, rfl⟩ := List.mem_iff_getElem.mp hrecord
      have hall := forall₂_of_mapM hheights
      have hj : i < heights.length := by rwa [← hall.length_eq]
      have hget := hall.get hi hj
      simp only [List.get_eq_getElem, hitem] at hget
      rw [Except.ok.inj hget]
      exact List.getElem_mem hj
    have hmax := maxPy_le hboundary (extended_of_number (sliceEnd_eq_ok hstop)) height hmem _
      (extended_of_number hnumber)
    exact_mod_cast WithTop.coe_le_coe.mp (WithBot.coe_le_coe.mp hmax)
  refine SameAncestry.mono ?_ hle
  have hslices : List.Forall₂ SameHead (takePy oldChain stop) (takePy chain stop) := by
    have hlengths : (takePy oldChain stop).length = (takePy chain stop).length := by
      rw [holdBlocks.length_eq, hblocks.length_eq, hlength]
    refine List.forall₂_iff_get.mpr ⟨hlengths, fun i hi hi' => ?_⟩
    have hj : i < oldHeads.length := by rwa [← holdBlocks.length_eq]
    have hj' : i < heads.length := by rwa [← hblocks.length_eq]
    have hzip : (oldHeads[i], heads[i]) ∈ oldHeads.zip heads := by
      have hk : i < (oldHeads.zip heads).length := by
        rw [List.length_zip]
        omega
      have hget := List.getElem_mem hk
      rwa [List.getElem_zip] at hget
    have hpair := List.all_eq_true.mp hall _ hzip
    simp only [Bool.and_eq_true] at hpair
    exact sameHead_of_blockHead (holdBlocks.get hi hj) (hblocks.get hi' hj') hpair.2
  by_cases hnonneg : 0 ≤ stop
  · rw [SameAncestry, sub_add_cancel]
    rwa [takePy_of_nonneg hnonneg, takePy_of_nonneg hnonneg] at hslices
  · have hnone : (stop - 1 + 1).toNat = 0 := by omega
    rw [SameAncestry, hnone]
    exact .nil

theorem checkAncestry_spec {height : Nat} {previous : Value} {blocks : List Value}
    (h : checkAncestry height previous blocks = .ok ()) {i : Nat} (hi : i < blocks.length) :
    ∃ b : Dict, blocks[i] = .dict b ∧ (b.get "index").pyEq (.int (height + i : Nat)) = true := by
  induction blocks generalizing height previous i with
  | nil => cases hi
  | cons block blocks ih =>
    obtain ⟨b, hb, h⟩ := bind_eq_ok.mp h
    obtain ⟨⟨⟩, hindex, h⟩ := bind_eq_ok.mp h
    cases i with
    | zero => exact ⟨b, asDict_eq_ok hb, (require_eq_ok.mp hindex).1⟩
    | succ i =>
      obtain ⟨b', hb', hindex'⟩ := ih h (Nat.lt_of_succ_lt_succ hi)
      refine ⟨b', hb', ?_⟩
      rwa [show height + (i + 1) = height + 1 + i by omega]

/-- What the checks on the merged proofs establish. -/
structure ProofsChecked (oldRecords chain : List Value) (oldChain : Value)
    (targets : Table HashKey Value) (proofs : Proofs) : Prop where
  target : ∀ e ∈ proofs, ∃ blockHash, e.2.record.item "block_hash" = .ok blockHash ∧
    (targetHash targets e.1).pyEq blockHash = true
  position : ∀ e ∈ proofs, ∀ n : Int, e.2.height.number? = some (n : Rat) → ∀ i : Nat, i ≤ n →
    ∃ b : Dict, chain[i]? = some (.dict b) ∧ (b.get "index").pyEq (.int i) = true
  ancestry : oldRecords ≠ [] → checkOldAncestry oldRecords oldChain chain = .ok ()

theorem checkProofs_spec {durable : Dict} {oldRecords chain : List Value}
    {targets : Table HashKey Value} {proofs : Proofs}
    (h : checkProofs durable oldRecords chain targets proofs = .ok ()) :
    ProofsChecked oldRecords chain ((durable.get "chain").orElse (.list [])) targets proofs := by
  obtain ⟨boundary, hboundary, h⟩ := bind_eq_ok.mp h
  obtain ⟨short, hshort, h⟩ := bind_eq_ok.mp h
  obtain ⟨⟨⟩, henough, h⟩ := bind_eq_ok.mp h
  obtain ⟨stop, hstop, h⟩ := bind_eq_ok.mp h
  obtain ⟨⟨⟩, hancestry, h⟩ := bind_eq_ok.mp h
  obtain ⟨⟨⟩, htargets, hold⟩ := bind_eq_ok.mp h
  obtain rfl := require_eq_ok.mp henough
  have hextended := extended_of_number (sliceEnd_eq_ok hstop)
  refine ⟨checkTargets_spec htargets, fun e he n hn i hi => ?_, fun hne => ?_⟩
  · have hlength : stop ≤ chain.length := by
      unfold atMost at hshort
      split at hshort
      · rw [hextended] at hshort
        have hlt : ((stop - 1 : Int) : Rat) < (chain.length : Rat) :=
          WithTop.coe_lt_coe.mp (WithBot.coe_lt_coe.mp
            (not_le.mp (of_decide_eq_false (Except.ok.inj hshort))))
        have hlt : stop - 1 < (chain.length : Int) := by exact_mod_cast hlt
        omega
      · cases hshort
    have hle : n ≤ stop - 1 := by
      have hmem : e.2.height ∈ proofs.values.map Proof.height :=
        List.mem_map_of_mem (List.mem_map_of_mem he)
      have hmax := maxPy_le hboundary hextended _ hmem _ (extended_of_number hn)
      exact_mod_cast WithTop.coe_le_coe.mp (WithBot.coe_le_coe.mp hmax)
    rw [takePy_of_nonneg (by omega)] at hancestry
    have hi' : i < (chain.take stop.toNat).length := by
      rw [List.length_take]
      omega
    obtain ⟨b, hb, hindex⟩ := checkAncestry_spec hancestry hi'
    refine ⟨b, ?_, by rwa [Nat.zero_add] at hindex⟩
    rw [← hb, List.getElem_take, List.getElem?_eq_getElem]
  · rwa [if_neg hne] at hold

/-! ## Votes -/

/-- The key of the message of an attestation. -/
def messageKey (vote : Value) : Py HashKey := do
  let identity ← vote.item "message"
  identity.hashKey

/-- Every attestation is under its own message. -/
def VotesKeyed (votes : Table HashKey Value) : Prop :=
  ∀ e ∈ votes, messageKey e.2 = .ok e.1

/-- No message is dropped, and without a reorganization every record's is there. -/
theorem addVote_spec {targets votes votes' : Table HashKey Value} {allow : Bool} {record : Value}
    (hv : VotesKeyed votes) (h : addVote targets allow votes record = .ok votes') :
    VotesKeyed votes' ∧ (∀ key ∈ votes.keys, key ∈ votes'.keys) ∧
      (allow = false → ∃ key ∈ votes'.keys, messageKey record = .ok key) := by
  obtain ⟨height, -, h⟩ := bind_eq_ok.mp h
  obtain ⟨heightKey, -, h⟩ := bind_eq_ok.mp h
  obtain ⟨blockHash, -, h⟩ := bind_eq_ok.mp h
  split at h
  · obtain ⟨identity, hidentity, h⟩ := bind_eq_ok.mp h
    obtain ⟨key, hkey, h⟩ := bind_eq_ok.mp h
    have hmessage : messageKey record = .ok key := by rw [messageKey, hidentity, ok_bind, hkey]
    cases hget : votes.get? key with
    | none =>
      rw [hget] at h
      cases h
      have hset := Table.set_of_notMem (a := record) (Table.get?_eq_none.mp hget)
      refine ⟨fun e he => ?_, fun key' hkey' => ?_, fun _ => ⟨key, ?_, hmessage⟩⟩
      · obtain rfl | he := Table.mem_set he
        · exact hmessage
        · exact hv e he
      · rw [hset, Table.keys, List.map_append]
        exact List.mem_append_left _ hkey'
      · rw [hset, Table.keys, List.map_append]
        exact List.mem_append_right _ (List.mem_singleton_self _)
    | some existing =>
      rw [hget] at h
      obtain ⟨⟨⟩, -, h⟩ := bind_eq_ok.mp h
      cases h
      have hmem := List.mem_map_of_mem (f := Prod.fst) (Table.mem_of_get? hget)
      exact ⟨hv, fun _ => id, fun _ => ⟨key, hmem, hmessage⟩⟩
  · split at h
    · next hallow =>
      cases h
      exact ⟨hv, fun _ => id, fun hfalse => absurd (hfalse.symm.trans hallow) Bool.false_ne_true⟩
    · cases h

theorem addVotes_spec {targets votes votes' : Table HashKey Value} {allow : Bool}
    {records : List Value} (hv : VotesKeyed votes)
    (h : records.foldlM (addVote targets allow) votes = .ok votes') :
    VotesKeyed votes' ∧ (∀ key ∈ votes.keys, key ∈ votes'.keys) ∧
      (allow = false → ∀ record ∈ records, ∃ key ∈ votes'.keys, messageKey record = .ok key) := by
  induction records generalizing votes with
  | nil =>
    cases foldlM_nil_eq_ok.mp h
    exact ⟨hv, fun _ => id, nofun⟩
  | cons record records ih =>
    obtain ⟨next, hnext, h⟩ := foldlM_cons_eq_ok.mp h
    obtain ⟨hkeyed, hkeep, hadded⟩ := addVote_spec hv hnext
    obtain ⟨hkeyed', hkeep', hadded'⟩ := ih hkeyed h
    refine ⟨hkeyed', fun key hkey => hkeep' key (hkeep key hkey), fun hallow r hr => ?_⟩
    obtain rfl | hr := List.mem_cons.mp hr
    · obtain ⟨key, hkey, hmessage⟩ := hadded hallow
      exact ⟨key, hkeep' key hkey, hmessage⟩
    · exact hadded' hallow r hr

theorem map_snd_voteOrder {votes : List Value} {keyed : List (List Value × Value)}
    (h : votes.mapM voteOrder = .ok keyed) : keyed.map Prod.snd = votes := by
  have hall := forall₂_of_mapM h
  clear h
  induction hall with
  | nil => rfl
  | cons hvote _ ih =>
    obtain ⟨height, -, hvote⟩ := bind_eq_ok.mp hvote
    obtain ⟨blockHash, -, hvote⟩ := bind_eq_ok.mp hvote
    obtain ⟨validator, -, hvote⟩ := bind_eq_ok.mp hvote
    obtain ⟨signature, -, hvote⟩ := bind_eq_ok.mp hvote
    cases hvote
    exact congrArg (List.cons _) ih

theorem sortVotes_perm {votes sorted : List Value} (h : sortVotes votes = .ok sorted) :
    sorted.Perm votes := by
  obtain ⟨keyed, hkeyed, h⟩ := bind_eq_ok.mp h
  obtain ⟨order, horder, h⟩ := bind_eq_ok.mp h
  cases h
  exact map_snd_voteOrder hkeyed ▸ (sortPy_perm horder).map Prod.snd

/-! ## Guarded documents -/

/-- The items of a section. -/
def entries (document : Dict) (name : String) : List Value :=
  match (document.get name).listOrEmpty with
  | .ok items => items
  | .error _ => []

theorem entries_eq {document : Dict} {name : String} {items : List Value}
    (h : (document.get name).listOrEmpty = .ok items) : entries document name = items := by
  rw [entries, h]

/-- What a document satisfies that the guard has let through. -/
structure Guarded (d : Dict) : Prop where
  blocks : ∀ v ∈ entries d "chain", ∃ b, v = .dict b
  chain : (d.get "chain").orElse (.list []) = .list (entries d "chain")
  distinct : (entries d "finalized_blocks").Pairwise fun r r' =>
    ∀ n, ¬(declaresHeight n r = true ∧ declaresHeight n r' = true)
  target : ∀ r ∈ entries d "finalized_blocks", ∀ n x, declaresHeight n r = true →
    r.item "block_hash" = .ok x → x ≠ .null → ∃ b : Dict, .dict b ∈ entries d "chain" ∧
      (b.get "index").pyEq (.int n) = true ∧ (b.get "hash").pyEq x = true
  position : ∀ r ∈ entries d "finalized_blocks", ∀ n : Int, declaresHeight n r = true →
    ∀ i : Nat, i ≤ n → ∃ b : Dict, (entries d "chain")[i]? = some (.dict b) ∧
      (b.get "index").pyEq (.int i) = true

/-- Blocks are read from a list only. -/
theorem orElse_of_blocks {v : Value} {chain : List Value} (h : v.listOrEmpty = .ok chain)
    (hblocks : ∀ u ∈ chain, ∃ b, u = .dict b) : v.orElse (.list []) = .list chain := by
  unfold Value.listOrEmpty at h
  unfold Value.orElse
  split at h
  · next htruthy =>
    rw [if_pos htruthy]
    have hnil : ∀ {α : Type} {xs : List α} {f : α → Value}, chain = xs.map f →
        (∀ x b, f x ≠ .dict b) → xs = [] := by
      intro α xs f hmap hf
      cases xs with
      | nil => rfl
      | cons x xs =>
        obtain ⟨b, hb⟩ := hblocks (f x) (by simp [hmap])
        exact absurd hb (hf x b)
    cases v with
    | list xs => rw [Except.ok.inj h]
    | dict es =>
      obtain rfl := hnil (Except.ok.inj h).symm nofun
      cases htruthy
    | str s =>
      have hempty := hnil (Except.ok.inj h).symm nofun
      rw [String.toList_eq_nil_iff.mp hempty] at htruthy
      cases htruthy
    | bytes b =>
      obtain rfl := hnil (Except.ok.inj h).symm nofun
      cases htruthy
    | _ => cases h
  · next hfalsy =>
    cases h
    rw [if_neg hfalsy]

theorem number_of_hashKey {v : Value} {q : Rat} (h : v.hashKey = .ok (.number q)) :
    v.number? = some q := by
  cases v with
  | float f => cases f <;> simp_all [Value.number?, Value.hashKey]
  | _ => simp_all [Value.number?, Value.hashKey]

theorem Proofs.Keyed.declares {proofs : Proofs} (hp : proofs.Keyed) {e : HashKey × Proof}
    (he : e ∈ proofs) {n : Int} (hn : declaresHeight n e.2.record = true) :
    e.2.height.number? = some (n : Rat) ∧ e.1 = .number n := by
  obtain ⟨hitem, hkey⟩ := hp.proof e he
  obtain ⟨height, hitem', hnumber⟩ := declaresHeight_iff.mp hn
  obtain rfl := Except.ok.inj (hitem.symm.trans hitem')
  exact ⟨hnumber, Except.ok.inj (hkey.symm.trans (hashKey_of_number hnumber))⟩

/-- The records of a table of proofs declare distinct heights. -/
theorem Proofs.Keyed.distinct {proofs : Proofs} (hp : proofs.Keyed) :
    proofs.records.Pairwise fun r r' =>
      ∀ n, ¬(declaresHeight n r = true ∧ declaresHeight n r' = true) := by
  rw [Proofs.records, Table.values, List.map_map, List.pairwise_map]
  have hkeys := List.Pairwise.and_mem.mp (List.pairwise_map.mp hp.nodup)
  refine hkeys.imp fun {e e'} hne n hn => ?_
  obtain ⟨he, he', hne⟩ := hne
  exact hne ((hp.declares he hn.1).2.trans (hp.declares he' hn.2).2.symm)

theorem listSection_eq_ok {document : Dict} {name : String} {items : List Value}
    (h : listSection document name = .ok items) : entries document name = items := by
  unfold listSection Value.orElse at h
  refine entries_eq ?_
  unfold Value.listOrEmpty
  by_cases htruthy : (document.get name).truthy = true
  · rw [if_pos htruthy] at h ⊢
    cases hv : document.get name with
    | list xs =>
      rw [hv] at h
      exact h
    | _ =>
      rw [hv] at h
      cases h
  · rw [if_neg htruthy] at h ⊢
    exact h

theorem entries_set_self (document : Dict) (name : String) (items : List Value) :
    entries (document.set name (.list items)) name = items := by
  rw [entries, Dict.get_set_self]
  cases items <;> rfl

theorem entries_set_of_ne {document : Dict} {name name' : String} {v : Value}
    (hne : name ≠ name') : entries (document.set name v) name' = entries document name' := by
  rw [entries, entries, Dict.get_set_of_ne hne]

/-- What a save establishes, and what it keeps of the durable document. -/
structure Saved (durable d : Dict) (allowVoteReorg : Bool) : Prop where
  guarded : Guarded d
  records : ∀ r ∈ entries durable "finalized_blocks", r ∈ entries d "finalized_blocks"
  ancestry : Guarded durable → ∀ r ∈ entries durable "finalized_blocks", ∀ n,
    declaresHeight n r = true → SameAncestry n (entries durable "chain") (entries d "chain")
  votes : allowVoteReorg = false → ∀ v ∈ entries durable "finality_attestations",
    ∃ key, messageKey v = .ok key ∧ ∃ w ∈ entries d "finality_attestations",
      messageKey w = .ok key

theorem preserveFinality_spec {durable replacement d : Dict} {allow : Bool}
    (h : preserveFinality durable replacement allow = .ok d) : Saved durable d allow := by
  obtain ⟨chain, hchain, h⟩ := bind_eq_ok.mp h
  obtain ⟨targets, htargets, h⟩ := bind_eq_ok.mp h
  obtain ⟨oldRecords, holdRecords, h⟩ := bind_eq_ok.mp h
  obtain ⟨durableProofs, hdurable, h⟩ := bind_eq_ok.mp h
  obtain ⟨newRecords, -, h⟩ := bind_eq_ok.mp h
  obtain ⟨proofs, hproofs, h⟩ := bind_eq_ok.mp h
  obtain ⟨⟨⟩, hchecked, h⟩ := bind_eq_ok.mp h
  obtain ⟨oldVotes, holdVotes, h⟩ := bind_eq_ok.mp h
  obtain ⟨newVotes, -, h⟩ := bind_eq_ok.mp h
  obtain ⟨votes, hvotes, h⟩ := bind_eq_ok.mp h
  obtain ⟨sortedVotes, hsortedVotes, h⟩ := bind_eq_ok.mp h
  obtain ⟨sortedProofs, hsortedProofs, h⟩ := bind_eq_ok.mp h
  cases h
  -- the sections of the new document
  have hrecords := entries_set_self
    (replacement.set "finality_attestations" (.list sortedVotes)) "finalized_blocks"
    (sortedProofs.map Proof.record)
  generalize hd : (replacement.set "finality_attestations" (.list sortedVotes)).set
    "finalized_blocks" (.list (sortedProofs.map Proof.record)) = d at hrecords ⊢
  have hblocks : d.get "chain" = replacement.get "chain" := by
    rw [← hd, Dict.get_set_of_ne (by decide), Dict.get_set_of_ne (by decide)]
  have hchainEntries : entries d "chain" = chain := entries_eq (hblocks ▸ hchain)
  have hvoteEntries : entries d "finality_attestations" = sortedVotes := by
    rw [← hd, entries_set_of_ne (by decide), entries_set_self]
  have htargetsOf := targetsOf_chain htargets
  obtain ⟨hdurableKeyed, hdurableRecords⟩ := durableProofs_spec hdurable
  obtain ⟨hkeyed, hprefix⟩ := replacementProofs_spec hdurableKeyed hproofs
  have hperm : (entries d "finalized_blocks").Perm proofs.records :=
    hrecords ▸ (sortPy_perm hsortedProofs).map Proof.record
  have hspec : ∀ e ∈ proofs, ProofsChecked oldRecords chain
      ((durable.get "chain").orElse (.list [])) targets proofs := by
    intro e he
    cases proofs with
    | nil => cases he
    | cons e' proofs => exact checkProofs_spec hchecked
  have hentry : ∀ r ∈ entries d "finalized_blocks", ∃ e ∈ proofs, e.2.record = r := by
    intro r hr
    obtain ⟨p, hp, rfl⟩ := List.mem_map.mp (hperm.mem_iff.mp hr)
    obtain ⟨e, he, rfl⟩ := List.mem_map.mp hp
    exact ⟨e, he, rfl⟩
  have hold : ∀ r ∈ oldRecords, r ∈ proofs.records := by
    intro r hr
    rw [← hdurableRecords] at hr
    obtain ⟨p, hp, rfl⟩ := List.mem_map.mp hr
    obtain ⟨e, he, rfl⟩ := List.mem_map.mp hp
    exact List.mem_map_of_mem (List.mem_map_of_mem ( hprefix.subset he))
  refine ⟨⟨?_, ?_, ?_, ?_, ?_⟩, ?_, ?_, ?_⟩
  · rw [hchainEntries]
    exact htargetsOf.blocks
  · rw [hchainEntries, hblocks]
    exact orElse_of_blocks hchain htargetsOf.blocks
  · refine (hperm.pairwise_iff fun {r r'} hne n hn => ?_).mpr hkeyed.distinct
    exact hne n hn.symm
  · intro r hr n x hn hx hnull
    obtain ⟨e, he, rfl⟩ := hentry r hr
    obtain ⟨x', hx', hsame⟩ := (hspec e he).target e he
    obtain rfl := Except.ok.inj (hx.symm.trans hx')
    rw [(hkeyed.declares he hn).2, targetHash] at hsame
    cases hget : targets.get? (.number n) with
    | none =>
      rw [hget] at hsame
      cases x <;> first | exact absurd rfl hnull | cases hsame
    | some hash =>
      rw [hget] at hsame
      obtain ⟨b, hb, hindex, rfl⟩ := htargetsOf.target _ _ hget
      exact ⟨b, hchainEntries ▸ hb, Value.pyEq_int.mpr (number_of_hashKey hindex), hsame⟩
  · intro r hr n hn i hi
    obtain ⟨e, he, rfl⟩ := hentry r hr
    rw [hchainEntries]
    exact (hspec e he).position e he n (hkeyed.declares he hn).1 i hi
  · intro r hr
    rw [entries_eq holdRecords] at hr
    exact hperm.mem_iff.mpr (hold r hr)
  · intro hguarded r hr n hn
    rw [entries_eq holdRecords] at hr
    obtain ⟨p, hp, -⟩ := List.mem_map.mp (hold r hr)
    obtain ⟨e, he, -⟩ := List.mem_map.mp hp
    have hancestry := (hspec e he).ancestry (List.ne_nil_of_mem hr)
    rw [hguarded.chain] at hancestry
    rw [hchainEntries]
    exact checkOldAncestry_spec hancestry hr hn
  · intro hallow v hv
    rw [listSection_eq_ok holdVotes] at hv
    obtain ⟨hvotesKeyed, -, hadded⟩ := addVotes_spec (fun e he => absurd he List.not_mem_nil) hvotes
    obtain ⟨key, hkey, hmessage⟩ := hadded hallow v (List.mem_append_left _ hv)
    obtain ⟨e, he, rfl⟩ := List.mem_map.mp hkey
    refine ⟨e.1, hmessage, e.2, ?_, hvotesKeyed e he⟩
    rw [hvoteEntries]
    exact (sortVotes_perm hsortedVotes).mem_iff.mpr (List.mem_map_of_mem he)

/-! ## Runs of saves -/

/-- A document without finalized records, or one that a save has written. -/
def Durable (d : Dict) : Prop :=
  entries d "finalized_blocks" = [] ∨
    ∃ (durable : Dict) (s : Save),
      preserveFinality durable s.replacement s.allowVoteReorg = .ok d

theorem saves_concat (d : Dict) (run : List Save) (s : Save) :
    saves d (run ++ [s]) = save (saves d run) s := List.foldl_concat ..

theorem save_cases (d : Dict) (s : Save) :
    save d s = d ∨ preserveFinality d s.replacement s.allowVoteReorg = .ok (save d s) := by
  unfold save
  split
  · next h => exact Or.inr h
  · exact Or.inl rfl

/-- What is kept of a document: the record of each of its heights, the block that it
proves, and the ancestry of that block. -/
structure Keeps (d e : Dict) : Prop where
  record : ∀ r ∈ entries d "finalized_blocks", ∀ n, declaresHeight n r = true →
    (entries e "finalized_blocks").filter (declaresHeight n) = [r]
  block : ∀ r ∈ entries d "finalized_blocks", ∀ n x, declaresHeight n r = true →
    r.item "block_hash" = .ok x → x ≠ .null → ∃ b : Dict, .dict b ∈ entries e "chain" ∧
      (b.get "index").pyEq (.int n) = true ∧ (b.get "hash").pyEq x = true
  position : ∀ r ∈ entries d "finalized_blocks", ∀ n : Int, declaresHeight n r = true →
    ∀ i : Nat, i ≤ n → ∃ b : Dict, (entries e "chain")[i]? = some (.dict b) ∧
      (b.get "index").pyEq (.int i) = true
  ancestry : ∀ r ∈ entries d "finalized_blocks", ∀ n, declaresHeight n r = true →
    SameAncestry n (entries d "chain") (entries e "chain")

theorem Guarded.filter_eq {d : Dict} (hd : Guarded d) {r : Value} {n : Int}
    (hr : r ∈ entries d "finalized_blocks") (hn : declaresHeight n r = true) :
    (entries d "finalized_blocks").filter (declaresHeight n) = [r] := by
  have hone : ∀ {records : List Value}, (records.Pairwise fun r r' =>
      ∀ n, ¬(declaresHeight n r = true ∧ declaresHeight n r' = true)) → r ∈ records →
      records.filter (declaresHeight n) = [r] := by
    intro records hdistinct hmem
    induction records with
    | nil => cases hmem
    | cons r' records ih =>
      obtain ⟨hhead, htail⟩ := List.pairwise_cons.mp hdistinct
      obtain rfl | hmem := List.mem_cons.mp hmem
      · rw [List.filter_cons_of_pos hn, List.filter_eq_nil_iff.mpr]
        intro r' hr' hn'
        exact hhead r' hr' n ⟨hn, hn'⟩
      · rw [List.filter_cons_of_neg fun hn' => hhead r hmem n ⟨hn', hn⟩, ih htail hmem]
  exact hone hd.distinct hr

theorem Guarded.keeps {d : Dict} (hd : Guarded d) : Keeps d d where
  record _ hr _ hn := hd.filter_eq hr hn
  block := hd.target
  position := hd.position
  ancestry _ _ n _ := SameAncestry.refl hd.blocks n

theorem Keeps.save {d e f : Dict} {allow : Bool} (hkeeps : Keeps d e) (he : Guarded e)
    (hsaved : Saved e f allow) : Keeps d f := by
  have hmem : ∀ r ∈ entries d "finalized_blocks", ∀ n, declaresHeight n r = true →
      r ∈ entries e "finalized_blocks" := by
    intro r hr n hn
    have hfilter := hkeeps.record r hr n hn
    exact List.mem_of_mem_filter (hfilter ▸ List.mem_singleton_self r)
  refine ⟨fun r hr n hn => ?_, fun r hr n x hn => ?_, fun r hr n hn => ?_, fun r hr n hn => ?_⟩
  · exact hsaved.guarded.filter_eq (hsaved.records r (hmem r hr n hn)) hn
  · exact hsaved.guarded.target r (hsaved.records r (hmem r hr n hn)) n x hn
  · exact hsaved.guarded.position r (hsaved.records r (hmem r hr n hn)) n hn
  · exact (hkeeps.ancestry r hr n hn).trans (hsaved.ancestry he r (hmem r hr n hn) n hn)

/-- A run of saves keeps what a guarded document has finalized. -/
theorem Guarded.keeps_saves {d : Dict} (hd : Guarded d) (run : List Save) :
    Guarded (saves d run) ∧ Keeps d (saves d run) := by
  induction run using List.reverseRecOn with
  | nil => exact ⟨hd, hd.keeps⟩
  | append_singleton run s ih =>
    rw [saves_concat]
    obtain ⟨hguarded, hkeeps⟩ := ih
    obtain hsame | hsave := save_cases (saves d run) s
    · rw [hsame]
      exact ⟨hguarded, hkeeps⟩
    · have hsaved := preserveFinality_spec hsave
      exact ⟨hsaved.guarded, hkeeps.save hguarded hsaved⟩

/-- Saves without reorganization keep a message for each message. -/
theorem messages_saves (d : Dict) {run : List Save} (hrun : ∀ s ∈ run, s.allowVoteReorg = false)
    {v : Value} (hv : v ∈ entries d "finality_attestations") {key : HashKey}
    (hkey : messageKey v = .ok key) :
    ∃ w ∈ entries (saves d run) "finality_attestations", messageKey w = .ok key := by
  induction run using List.reverseRecOn with
  | nil => exact ⟨v, hv, hkey⟩
  | append_singleton run s ih =>
    rw [saves_concat]
    obtain ⟨u, hu, hukey⟩ := ih fun s' hs' => hrun s' (List.mem_append_left _ hs')
    obtain hsame | hsave := save_cases (saves d run) s
    · rw [hsame]
      exact ⟨u, hu, hukey⟩
    · obtain ⟨key', hkey', hkept⟩ :=
        (preserveFinality_spec hsave).votes (hrun s (by simp)) u hu
      obtain rfl := Except.ok.inj (hukey.symm.trans hkey')
      exact hkept

theorem Durable.saves {d : Dict} (hd : Durable d) (run : List Save) : Durable (saves d run) := by
  induction run using List.reverseRecOn with
  | nil => exact hd
  | append_singleton run s ih =>
    rw [saves_concat]
    obtain hsame | hsave := save_cases (Finality.saves d run) s
    · rwa [hsame]
    · exact Or.inr ⟨_, s, hsave⟩

theorem Durable.keeps_saves {d : Dict} (hd : Durable d) (run : List Save) :
    Keeps d (Finality.saves d run) := by
  obtain hnone | ⟨durable, s, hsave⟩ := hd
  · -- nothing is finalized yet
    constructor <;> (intro r hr; rw [hnone] at hr; cases hr)
  · exact ((preserveFinality_spec hsave).guarded.keeps_saves run).2

/-- In a run of saves, once the durable document has a finalized record, every later one has
it as the only record of its height, with the block that it proves and the same ancestry; and
saves that allow no reorganization of votes keep every message. -/
theorem durableFinality {d : Dict} (hd : Durable d) (earlier later : List Save) :
    Keeps (saves d earlier) (saves d (earlier ++ later)) ∧
      ((∀ s ∈ later, s.allowVoteReorg = false) →
        ∀ v ∈ entries (saves d earlier) "finality_attestations", ∀ key,
          messageKey v = .ok key → ∃ w ∈ entries (saves d (earlier ++ later))
            "finality_attestations", messageKey w = .ok key) := by
  have happend : saves d (earlier ++ later) = saves (saves d earlier) later := by
    rw [saves, List.foldl_append, saves, saves]
  rw [happend]
  exact ⟨(hd.saves earlier).keeps_saves later,
    fun hlater v hv key hkey => messages_saves _ hlater hv hkey⟩

/-! ### A sample

A genesis is finalized; a later save with another genesis raises. -/

def sampleBlock (blockHash : String) : Value :=
  .dict [("index", .int 0), ("hash", .str blockHash), ("previous_hash", .str "0")]

def sampleProof : Value := .dict [("block_height", .int 0), ("block_hash", .str "a")]

def sampleVote : Value :=
  .dict [("block_height", .int 0), ("block_hash", .str "a"), ("validator_address", .str "v"),
    ("signature", .str "s"), ("message", .str "m")]

def sampleDocument : Dict :=
  [("chain", .list [sampleBlock "a"]), ("finality_attestations", .list [sampleVote]),
    ("finalized_blocks", .list [sampleProof])]

def sampleRun : List Save :=
  [⟨[("chain", .list [sampleBlock "b"])], false⟩, ⟨[("chain", .list [sampleBlock "a"])], false⟩]

theorem durableFinality_sample :
    Keeps (saves [] [⟨sampleDocument, false⟩]) (saves [] (⟨sampleDocument, false⟩ :: sampleRun)) ∧
      ∃ w ∈ entries (saves [] (⟨sampleDocument, false⟩ :: sampleRun)) "finality_attestations",
        messageKey w = .ok (.str "m") := by
  obtain ⟨hkeeps, hmessages⟩ :=
    durableFinality (d := []) (Or.inl rfl) [⟨sampleDocument, false⟩] sampleRun
  refine ⟨hkeeps, hmessages (fun s hs => ?_) sampleVote (by decide +kernel) _ (by decide +kernel)⟩
  simp only [sampleRun, List.mem_cons, List.not_mem_nil, or_false] at hs
  obtain rfl | rfl := hs <;> rfl

end Finality

end ZoidbergChain
