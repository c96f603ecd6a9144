import ZoidbergChain.CanonicalV3.Store
import ZoidbergChain.Consensus.Lineage

/-!
# What a store keeps

The decoder of each call either gives the verdict on the bytes or fails locally. Against such
decoders:

- `Authentic`: the blocks, the selected tip and the evidence of a store fit together, and the
  selected chain is the lineage of the tip.
- `restored`: the tables with the indexes and the chain that these determine.
- `Sound`: a store is authentic and its derived tables are the determined ones.
- `load_reads`, `lineage_reads`, `selected_reads`: what a sound store is read as.
-/

namespace ZoidbergChain

open Python Consensus

namespace CanonicalV3

/-! ## Calls that may find no decoder -/

/-- A call ends in a value, or, where no decoder is available, in `StorageUnavailable`. -/
def Reads {α : Type} (available : Prop) (x : Stored α) (a : α) : Prop :=
  x = .ok a ∨ ¬ available ∧ ∃ message outcome, x = .error (.unavailable message outcome)

namespace Reads

variable {α β : Type} {p : Prop} {x : Stored α} {a : α}

theorem of_eq (h : x = .ok a) : Reads p x a := Or.inl h

theorem ok (h : Reads p x a) (hp : p) : x = .ok a := h.resolve_right fun hnot => hnot.1 hp

/-- What the call returns, if it returns. -/
theorem eq_of_ok {b : α} (h : Reads p x a) (hx : x = .ok b) : b = a := by
  obtain hok | ⟨-, message, outcome, herror⟩ := h
  · exact Except.ok.inj (hx.symm.trans hok)
  · rw [hx] at herror
    cases herror

theorem bind {f : α → Stored β} {b : β} (h : Reads p x a) (hf : Reads p (f a) b) :
    Reads p (x >>= f) b := by
  obtain rfl | ⟨hp, message, outcome, rfl⟩ := h
  · exact hf
  · exact Or.inr ⟨hp, message, outcome, rfl⟩

theorem mapM {γ : Type} {f : γ → Stored α} {g : γ → α} {xs : List γ}
    (h : ∀ c ∈ xs, Reads p (f c) (g c)) : Reads p (xs.mapM f) (xs.map g) := by
  induction xs with
  | nil => exact of_eq rfl
  | cons c xs ih =>
    rw [List.mapM_cons, List.map_cons]
    exact (h c (by simp)).bind ((ih fun d hd => h d (by simp [hd])).bind (of_eq rfl))

end Reads

theorem check_pos {p : Prop} [Decidable p] {e : StoreError} (h : p) : check p e = .ok () :=
  if_pos h

theorem check_eq_ok {p : Prop} [Decidable p] {e : StoreError} {u : Unit} :
    check p e = .ok u ↔ p := by
  unfold check
  split
  · next h => exact ⟨fun _ => h, fun _ => rfl⟩
  · next h => exact ⟨nofun, fun hp => absurd hp h⟩

theorem stored_bind_eq_ok {α β : Type} {x : Stored α} {f : α → Stored β} {b : β} :
    (x >>= f) = .ok b ↔ ∃ a, x = .ok a ∧ f a = .ok b := by
  cases x with
  | error e => exact ⟨nofun, fun ⟨_, h, _⟩ => nomatch h⟩
  | ok a => exact ⟨fun h => ⟨a, rfl, h⟩, fun ⟨b, hb, h⟩ => Except.ok.inj hb ▸ h⟩

@[simp] theorem stored_ok_bind {α β : Type} (a : α) (f : α → Stored β) :
    (Except.ok a >>= f : Stored β) = f a := rfl

theorem lift_eq_ok {α : Type} {x : Py α} {a : α} : lift x = .ok a ↔ x = .ok a := by
  cases x with
  | error e => exact ⟨nofun, nofun⟩
  | ok b => exact ⟨fun h => congrArg Except.ok (Except.ok.inj h),
      fun h => congrArg Except.ok (Except.ok.inj h)⟩

variable {crypto : Crypto} {store : StoreConfig} {verdict : ByteArray → Outcome}
  {workers : Workers} {db : Tables}

/-! ## Decoders -/

/-- The decoder of a call gives the verdict on the bytes, or fails locally. -/
def Faithful (verdict : ByteArray → Outcome) (workers : Workers) : Prop :=
  ∀ raw, workers.decode raw = verdict raw ∨ (workers.decode raw).status = .indeterminate

/-- Workers that never fail. -/
def ideal (verdict : ByteArray → Outcome) : Workers := { compress _ := none, decode := verdict }

theorem faithful_ideal (verdict : ByteArray → Outcome) : Faithful verdict (ideal verdict) :=
  fun _ => Or.inl rfl

/-- The media of a record. -/
def recordMedia (record : Value) : Value := (recordPayload record).field "media"

/-- A reconstruction is the one of the verdict, or a local failure. -/
theorem reconstruct_faithful (crypto : Crypto) (h : Faithful verdict workers) (media : Value) :
    reconstruct crypto workers media = reconstruct crypto (ideal verdict) media ∨
      (reconstruct crypto workers media).status = .indeterminate := by
  unfold reconstruct
  cases (do let _ ← validateDescriptor media; canonical media : Py ByteArray) with
  | error e => exact Or.inl rfl
  | ok raw =>
    obtain hsame | hlocal := h raw
    · left
      simp only [hsame, ideal]
      rfl
    · right
      simp only [hlocal, ne_eq, reduceCtorEq, not_false_eq_true, if_true]

/-! ## Records -/

/-- The record of stored bytes. -/
def recordOf (crypto : Crypto) (store : StoreConfig) (raw : ByteArray) : Value :=
  match parseRecord crypto store.ctx raw with
  | .ok record => record
  | .error _ => .null

/-- Bytes that a store has verified, under their hash. -/
structure Verified (crypto : Crypto) (store : StoreConfig) (verdict : ByteArray → Outcome)
    (hash : String) (raw : ByteArray) : Prop where
  parsed : parseRecord crypto store.ctx raw = .ok (recordOf crypto store raw)
  keyed : recordHash (recordOf crypto store raw) = hash
  sized : 1 ≤ raw.size ∧ raw.size ≤ maxRecord
  media : (reconstruct crypto (ideal verdict) (recordMedia (recordOf crypto store raw))).status =
    .valid

theorem size_pos_of_canonical {v : Value} {raw : ByteArray} (h : canonical v = .ok raw) :
    1 ≤ raw.size := by
  obtain ⟨c, t, hrender, -⟩ := Json.render_head (plain_of_jsonValue (canonical_eq_ok.mp h).1)
  have hwidth : raw.size = Json.width v := size_canonical h
  have hpos := c.utf8Size_pos
  rw [hwidth, Json.width, hrender, Json.bytes_cons]
  omega

/-- What `_verify` has accepted. -/
theorem verified_of_verify {raw : ByteArray} {record : Value} {stored : Bool}
    (hworkers : Faithful verdict workers)
    (h : verify crypto store workers raw stored = .ok record) :
    record = recordOf crypto store raw ∧
      Verified crypto store verdict (recordHash record) raw := by
  rw [verify] at h
  cases hparse : parseRecord crypto store.ctx raw with
  | error e =>
    rw [hparse] at h
    dsimp only at h
    split at h <;> cases h
  | ok parsed =>
    simp only [hparse] at h
    have hrecord : recordOf crypto store raw = parsed := by
      rw [recordOf, hparse]
    cases hstatus : (reconstruct crypto workers (recordMedia parsed)).status with
    | indeterminate =>
      rw [recordMedia] at hstatus
      simp only [hstatus] at h
      cases h
    | invalid =>
      rw [recordMedia] at hstatus
      simp only [hstatus] at h
      split at h <;> cases h
    | valid =>
      have hstatus' := hstatus
      rw [recordMedia] at hstatus'
      simp only [hstatus'] at h
      obtain rfl := Except.ok.inj h
      obtain hsame | hlocal :=
        reconstruct_faithful crypto hworkers (recordMedia parsed)
      · obtain ⟨_, _, _, -, -, -, hraw, -⟩ := parseRecord_eq hparse
        obtain ⟨⟨⟩, hcomplete, -⟩ := bind_eq_ok.mp hparse
        refine ⟨hrecord.symm, ?_, ?_, ⟨size_pos_of_canonical hraw, require_eq_ok.mp hcomplete⟩, ?_⟩
        · rw [hrecord]
          exact hparse
        · rw [hrecord]
        · rw [hrecord, ← hsame]
          exact hstatus
      · rw [hlocal] at hstatus
        cases hstatus

/-- The decoder fails locally on no stored block. -/
def Available (crypto : Crypto) (store : StoreConfig) (workers : Workers) (db : Tables) : Prop :=
  ∀ e ∈ db.blocks,
    (reconstruct crypto workers (recordMedia (recordOf crypto store e.2))).status ≠ .indeterminate

/-- Verified bytes are read as their record. -/
theorem verify_reads {hash : String} {raw : ByteArray} {stored : Bool}
    (hworkers : Faithful verdict workers) (h : Verified crypto store verdict hash raw)
    (hmem : (hash, raw) ∈ db.blocks) :
    Reads (Available crypto store workers db) (verify crypto store workers raw stored)
      (recordOf crypto store raw) := by
  have hstatus : (reconstruct crypto workers (recordMedia (recordOf crypto store raw))).status =
      .valid ∨ (reconstruct crypto workers (recordMedia (recordOf crypto store raw))).status =
      .indeterminate := by
    obtain hsame | hlocal :=
      reconstruct_faithful crypto hworkers (recordMedia (recordOf crypto store raw))
    · exact Or.inl (hsame ▸ h.media)
    · exact Or.inr hlocal
  rw [verify, h.parsed]
  obtain hvalid | hlocal := hstatus
  · left
    rw [recordMedia] at hvalid
    simp only [hvalid]
  · right
    refine ⟨fun havailable => havailable _ hmem hlocal, "isolated decoder local failure",
      reconstruct crypto workers (recordMedia (recordOf crypto store raw)), ?_⟩
    rw [recordMedia] at hlocal
    simp only [hlocal]
    rfl

/-! ## Blocks and their links -/

/-- The height and the parent that a stored block states. -/
def links (crypto : Crypto) (store : StoreConfig) (db : Tables) (hash : String) :
    Option (Int × String) :=
  (db.blocks.get? hash).map fun raw =>
    ((derived (recordOf crypto store raw)).height,
      (derived (recordOf crypto store raw)).previousHash)

/-- Every stored block has been verified, under its hash. -/
structure BlocksVerified (crypto : Crypto) (store : StoreConfig) (verdict : ByteArray → Outcome)
    (db : Tables) : Prop where
  nodup : db.blocks.keys.Nodup
  verified : ∀ e ∈ db.blocks, Verified crypto store verdict e.1 e.2

/-- The rows of the indexes that the blocks determine. -/
structure Indexed (crypto : Crypto) (store : StoreConfig) (db : Tables) : Prop where
  blocks : db.blockIndex = db.blocks.map fun e => derived (recordOf crypto store e.2)
  transactions : db.transactionIndex =
    db.blocks.flatMap fun e => transactionRows (recordOf crypto store e.2)

theorem transactionRows_hash {record : Value} {row : TransactionRow}
    (h : row ∈ transactionRows record) : row.blockHash = recordHash record := by
  obtain ⟨e, -, rfl⟩ := List.mem_map.mp h
  rfl

/-- The positions of the transactions of a record ascend. -/
theorem transactionRows_sorted (record : Value) :
    (transactionRows record).Pairwise fun a b => a.position < b.position := by
  rw [transactionRows, List.pairwise_map]
  have hpositions : (((recordPayload record).field "native_transactions").items.zipIdx.map
      Prod.snd).Pairwise (· < ·) := by
    rw [List.zipIdx_map_snd]
    exact List.pairwise_lt_range'
  exact List.pairwise_map.mp hpositions

namespace BlocksVerified

theorem keyed (h : BlocksVerified crypto store verdict db) {hash : String} {raw : ByteArray}
    (hmem : (hash, raw) ∈ db.blocks) :
    (derived (recordOf crypto store raw)).hash = hash := (h.verified _ hmem).keyed

/-- The row of a block in its index. -/
theorem find?_blockIndex (h : BlocksVerified crypto store verdict db)
    (hindexed : Indexed crypto store db) {hash : String} {raw : ByteArray}
    (hmem : (hash, raw) ∈ db.blocks) :
    db.blockIndex.find? (·.hash = hash) = some (derived (recordOf crypto store raw)) := by
  rw [hindexed.blocks]
  have hkey : ∀ e ∈ db.blocks, (derived (recordOf crypto store e.2)).hash = e.1 :=
    fun e he => (h.verified e he).keyed
  have hnodup := h.nodup
  rw [Table.keys] at hnodup
  generalize db.blocks = blocks at hmem hkey hnodup
  induction blocks with
  | nil => cases hmem
  | cons e blocks ih =>
    obtain ⟨hfirst, hrest⟩ := List.forall_mem_cons.mp hkey
    obtain ⟨hnew, hnodup⟩ := List.nodup_cons.mp hnodup
    rw [List.map_cons, List.find?_cons]
    obtain rfl | hmem := List.mem_cons.mp hmem
    · simp [hfirst]
    · have hne : e.1 ≠ hash := by
        rintro rfl
        exact hnew (List.mem_map.mpr ⟨_, hmem, rfl⟩)
      simp only [hfirst, hne, decide_false]
      exact ih hmem hrest hnodup

/-- The rows of a block in the index of transactions. -/
theorem filter_transactionIndex (h : BlocksVerified crypto store verdict db)
    (hindexed : Indexed crypto store db) {hash : String} {raw : ByteArray}
    (hmem : (hash, raw) ∈ db.blocks) :
    db.transactionIndex.filter (·.blockHash = hash) =
      transactionRows (recordOf crypto store raw) := by
  rw [hindexed.transactions]
  have hrows : ∀ e ∈ db.blocks, ∀ row ∈ transactionRows (recordOf crypto store e.2),
      row.blockHash = e.1 :=
    fun e he row hrow => (transactionRows_hash hrow).trans (h.verified e he).keyed
  have hnodup := h.nodup
  rw [Table.keys] at hnodup
  generalize db.blocks = blocks at hmem hrows hnodup
  induction blocks with
  | nil => cases hmem
  | cons e blocks ih =>
    obtain ⟨hfirst, hrest⟩ := List.forall_mem_cons.mp hrows
    obtain ⟨hnew, hnodup⟩ := List.nodup_cons.mp hnodup
    rw [List.flatMap_cons, List.filter_append]
    obtain rfl | hmem := List.mem_cons.mp hmem
    · have hothers : (blocks.flatMap fun e => transactionRows (recordOf crypto store e.2)).filter
          (·.blockHash = hash) = [] := by
        rw [List.filter_eq_nil_iff]
        intro row hrow
        obtain ⟨e, he, hrow⟩ := List.mem_flatMap.mp hrow
        rw [hrest e he row hrow]
        have hne : e.1 ≠ hash := by
          rintro rfl
          exact hnew (List.mem_map.mpr ⟨e, he, rfl⟩)
        simp [hne]
      rw [hothers, List.append_nil, List.filter_eq_self]
      intro row hrow
      simp [hfirst row hrow]
    · have hne : e.1 ≠ hash := by
        rintro rfl
        exact hnew (List.mem_map.mpr ⟨_, hmem, rfl⟩)
      have hnone : (transactionRows (recordOf crypto store e.2)).filter (·.blockHash = hash) =
          [] := by
        rw [List.filter_eq_nil_iff]
        intro row hrow
        simp [hfirst row hrow, hne]
      rw [hnone, List.nil_append]
      exact ih hmem hrest hnodup

end BlocksVerified

/-- A load reads what is stored under the hash. -/
theorem load_reads (hworkers : Faithful verdict workers)
    (h : BlocksVerified crypto store verdict db) (indexes : Bool)
    (hindexed : indexes = true → Indexed crypto store db) (hash : String) :
    Reads (Available crypto store workers db) (load crypto store workers db hash indexes)
      ((db.blocks.get? hash).map fun raw => (raw, recordOf crypto store raw)) := by
  rw [load]
  cases hget : db.blocks.get? hash with
  | none => exact Reads.of_eq rfl
  | some raw =>
    have hmem := Table.mem_of_get? hget
    have hverified := h.verified _ hmem
    refine Reads.bind (Reads.of_eq (check_pos hverified.sized)) ?_
    refine Reads.bind (verify_reads hworkers hverified hmem) ?_
    refine Reads.bind (Reads.of_eq (check_pos hverified.keyed)) ?_
    refine Reads.bind (Reads.of_eq (check_pos fun hindexes => ⟨?_, ?_⟩)) (Reads.of_eq rfl)
    · exact h.find?_blockIndex (hindexed hindexes) hmem
    · rw [h.filter_transactionIndex (hindexed hindexes) hmem]
      exact ((transactionRows_sorted _).imp le_of_lt).insertionSort_eq

/-- What a load returns is linked. -/
theorem link_of_load {hash : String} {indexes : Bool} {raw : ByteArray} {record : Value}
    (hload : load crypto store workers db hash indexes = .ok (some (raw, record))) :
    links crypto store db hash =
      some ((derived record).height, (derived record).previousHash) := by
  rw [load] at hload
  cases hget : db.blocks.get? hash with
  | none =>
    rw [hget] at hload
    cases hload
  | some stored =>
    simp only [hget, stored_bind_eq_ok] at hload
    obtain ⟨⟨⟩, -, parsed, hverify, ⟨⟩, -, ⟨⟩, -, hout⟩ := hload
    obtain ⟨rfl, rfl⟩ := Prod.mk.inj (Option.some.inj (Except.ok.inj hout))
    have hrecord : recordOf crypto store stored = parsed := by
      rw [verify] at hverify
      cases hparse : parseRecord crypto store.ctx stored with
      | error e =>
        simp only [hparse] at hverify
        split at hverify <;> cases hverify
      | ok parsed' =>
        simp only [hparse] at hverify
        rw [recordOf, hparse]
        split at hverify
        · cases hverify
        · split at hverify <;> cases hverify
        · exact Except.ok.inj hverify
    rw [links, hget, Option.map_some, hrecord]

/-! ## The lineage of a tip -/

/-- The blocks of a store, from its anchor to a tip. -/
abbrev StoreLineage (crypto : Crypto) (store : StoreConfig) (db : Tables) :
    List (Int × String) → String → Prop :=
  Lineage (links crypto store db) store.anchorHash store.anchorHeight

/-- The walk reads a lineage in front of what it has read. -/
theorem walk_reads (hworkers : Faithful verdict workers)
    (h : BlocksVerified crypto store verdict db) {indexes : Bool}
    (hindexed : indexes = true → Indexed crypto store db) {pre acc : List (Int × String)}
    {seen : List String} {cursor : String} (hlineage : StoreLineage crypto store db pre cursor)
    (hacc : ∀ e ∈ acc.head?, e.1 = store.anchorHeight + pre.length + 1)
    (hseen : ∀ x ∈ seen, ∃ l, links crypto store db x = some l ∧
      store.anchorHeight + pre.length < l.1) :
    Reads (Available crypto store workers db)
      (walk crypto store workers db indexes acc seen cursor) (pre ++ acc) := by
  induction hlineage generalizing acc seen with
  | anchor =>
    rw [walk, if_pos rfl]
    exact Reads.of_eq rfl
  | @extend rest parent tip hrest hne hlink ih =>
    have hfresh : tip ∉ seen := by
      intro hmem
      obtain ⟨l, hl, hlt⟩ := hseen tip hmem
      obtain rfl := Option.some.inj (hlink.symm.trans hl)
      rw [List.length_append, List.length_singleton] at hlt
      dsimp only at hlt
      omega
    have hreads := load_reads hworkers h indexes hindexed tip
    obtain ⟨raw, hget, hrow⟩ := Option.map_eq_some_iff.mp hlink
    obtain ⟨hheight, hprevious⟩ := Prod.mk.inj hrow
    rw [hget, Option.map_some] at hreads
    rw [walk, if_neg hne, dif_neg hfresh]
    obtain hload | ⟨havailable, message, outcome, herror⟩ := hreads
    · have hcount : ¬ ((derived (recordOf crypto store raw)).height ≤ store.anchorHeight ∨
          ∃ e ∈ acc.head?, (derived (recordOf crypto store raw)).height ≠ e.1 - 1) := by
        rw [hheight]
        rintro (hle | ⟨e, he, hne⟩)
        · omega
        · have heq := hacc e he
          rw [List.length_append, List.length_singleton] at heq
          omega
      split
      · next herror => rw [hload] at herror; cases herror
      · next hnone => rw [hload] at hnone; cases hnone
      · next raw' record' hsome =>
        obtain ⟨rfl, rfl⟩ := Prod.mk.inj
          (Option.some.inj (Except.ok.inj (hload.symm.trans hsome)))
        dsimp only
        rw [if_neg hcount, hheight, hprevious, List.append_assoc]
        refine ih ?_ ?_
        · intro e he
          obtain rfl := Option.some.inj he
          rfl
        · intro x hx
          obtain rfl | hx := List.mem_cons.mp hx
          · exact ⟨_, hlink, by dsimp only; omega⟩
          · obtain ⟨l, hl, hlt⟩ := hseen x hx
            rw [List.length_append, List.length_singleton] at hlt
            exact ⟨l, hl, by omega⟩
    · right
      refine ⟨havailable, message, outcome, ?_⟩
      split
      · next e he => exact congrArg Except.error (Except.error.inj (he.symm.trans herror))
      · next hnone => rw [herror] at hnone; cases hnone
      · next hsome => rw [herror] at hsome; cases hsome

/-- What the walk returns is a lineage in front of what it had read. -/
theorem lineage_of_walk {indexes : Bool} {acc out : List (Int × String)} {seen : List String}
    {cursor : String} (h : walk crypto store workers db indexes acc seen cursor = .ok out) :
    ∃ pre base, out = pre ++ acc ∧
      Lineage (links crypto store db) store.anchorHash base pre cursor ∧
      ∀ e ∈ acc.head?, e.1 = base + pre.length + 1 := by
  induction acc, seen, cursor using walk.induct crypto store workers db indexes with
  | case1 acc seen =>
    rw [walk, if_pos rfl] at h
    obtain rfl := Except.ok.inj h
    cases acc with
    | nil => exact ⟨[], 0, rfl, .anchor, nofun⟩
    | cons e acc =>
      refine ⟨[], e.1 - 1, rfl, .anchor, fun e' he' => ?_⟩
      obtain rfl := Option.some.inj he'
      simp
  | case2 acc seen cursor hne hseen =>
    rw [walk, if_neg hne, dif_pos hseen] at h
    cases h
  | case3 acc seen cursor hne hseen e herror =>
    rw [walk, if_neg hne, dif_neg hseen] at h
    split at h <;> simp_all
  | case4 acc seen cursor hne hseen hnone =>
    rw [walk, if_neg hne, dif_neg hseen] at h
    split at h <;> simp_all
  | case5 acc seen cursor hne hseen raw record hload row hbad =>
    rw [walk, if_neg hne, dif_neg hseen] at h
    split at h
    · cases h
    · cases h
    · next raw' record' hload' =>
      obtain ⟨rfl, rfl⟩ := Prod.mk.inj (Option.some.inj (Except.ok.inj (hload.symm.trans hload')))
      dsimp only at h
      rw [if_pos hbad] at h
      cases h
  | case6 acc seen cursor hne hseen raw record hload row hgood ih =>
    rw [walk, if_neg hne, dif_neg hseen] at h
    split at h
    · cases h
    · cases h
    · next raw' record' hload' =>
      obtain ⟨rfl, rfl⟩ := Prod.mk.inj (Option.some.inj (Except.ok.inj (hload.symm.trans hload')))
      dsimp only at h
      rw [if_neg hgood] at h
      obtain ⟨pre, base, rfl, hlineage, hhead⟩ := ih h
      have hheight : row.height = base + pre.length + 1 := hhead _ rfl
      have hlink := link_of_load hload
      rw [show (derived record).height = base + pre.length + 1 from hheight] at hlink
      refine ⟨pre ++ [(base + pre.length + 1, cursor)], base, ?_,
        .extend hlineage hne hlink, ?_⟩
      · rw [List.append_assoc, hheight]
        rfl
      · intro e he
        have hnext : row.height = e.1 - 1 := by
          by_contra hdiffers
          exact hgood (Or.inr ⟨e, he, hdiffers⟩)
        rw [List.length_append, List.length_singleton]
        omega

/-- The chain that a tip selects. -/
def SelectedChain (crypto : Crypto) (store : StoreConfig) (db : Tables) (tip : Option String)
    (chain : List (Int × String)) : Prop :=
  match tip with
  | none => chain = []
  | some tip => chain ≠ [] ∧ StoreLineage crypto store db chain tip

theorem lineage_reads (hworkers : Faithful verdict workers)
    (h : BlocksVerified crypto store verdict db) (indexes : Bool)
    (hindexed : indexes = true → Indexed crypto store db) {tip : Option String}
    {chain : List (Int × String)} (hchain : SelectedChain crypto store db tip chain) :
    Reads (Available crypto store workers db) (lineage crypto store workers db tip indexes)
      chain := by
  cases tip with
  | none =>
    obtain rfl := hchain
    exact Reads.of_eq rfl
  | some tip =>
    obtain ⟨hne, hlineage⟩ := hchain
    have hwalk : Reads (Available crypto store workers db)
        (walk crypto store workers db indexes [] [] tip) (chain ++ []) :=
      walk_reads hworkers h hindexed hlineage nofun nofun
    rw [List.append_nil] at hwalk
    refine hwalk.bind (Reads.bind (Reads.of_eq (check_pos ?_)) (Reads.of_eq rfl))
    have hheights := hlineage.heights
    cases chain with
    | nil => exact absurd rfl hne
    | cons e rest =>
      rw [List.length_cons, List.range_succ_eq_map, List.map_cons, List.map_cons] at hheights
      have hfirst : e.1 = store.anchorHeight + ((0 : Nat) : Int) + 1 :=
        (List.cons.inj hheights).1
      rw [List.head?_cons, Option.map_some, hfirst, Nat.cast_zero, add_zero]

theorem selectedChain_of_lineage {indexes : Bool} {tip : Option String}
    {chain : List (Int × String)} (h : lineage crypto store workers db tip indexes = .ok chain) :
    SelectedChain crypto store db tip chain := by
  cases tip with
  | none => exact (Except.ok.inj h).symm
  | some tip =>
    simp only [lineage, stored_bind_eq_ok, check_eq_ok] at h
    obtain ⟨chain', hwalk, ⟨⟩, hfirst, hout⟩ := h
    obtain rfl := Except.ok.inj hout
    obtain ⟨pre, base, hpre, hlineage, -⟩ := lineage_of_walk hwalk
    rw [List.append_nil] at hpre
    subst hpre
    have hne : chain' ≠ [] := by
      rintro rfl
      cases hfirst
    refine ⟨hne, ?_⟩
    have hheights := hlineage.heights
    cases chain' with
    | nil => exact absurd rfl hne
    | cons e rest =>
      rw [List.length_cons, List.range_succ_eq_map, List.map_cons, List.map_cons] at hheights
      have hhead : e.1 = base + ((0 : Nat) : Int) + 1 := (List.cons.inj hheights).1
      have hstart : e.1 = store.anchorHeight + 1 := Option.some.inj hfirst
      have hbase : base = store.anchorHeight := by omega
      rw [hbase] at hlineage
      exact hlineage

theorem SelectedChain.pairwise_lt {tip : Option String} {chain : List (Int × String)}
    (h : SelectedChain crypto store db tip chain) : chain.Pairwise fun a b => a.1 < b.1 := by
  cases tip with
  | none =>
    obtain rfl := h
    exact List.Pairwise.nil
  | some tip => exact h.2.pairwise_lt

/-- The last block of the chain is the tip. -/
theorem SelectedChain.getLast? {tip : Option String} {chain : List (Int × String)}
    (h : SelectedChain crypto store db tip chain) : chain.getLast?.map Prod.snd = tip := by
  cases tip with
  | none =>
    obtain rfl := h
    rfl
  | some tip =>
    obtain ⟨hne, hlineage⟩ := h
    exact hlineage.getLast? fun heq => hne (hlineage.nil_iff.mpr heq)

/-- A chain is made of stored blocks. -/
theorem SelectedChain.stored {tip : Option String} {chain : List (Int × String)}
    (h : SelectedChain crypto store db tip chain) {e : Int × String} (he : e ∈ chain) :
    ∃ raw, db.blocks.get? e.2 = some raw ∧ (derived (recordOf crypto store raw)).height = e.1 := by
  cases tip with
  | none =>
    obtain rfl := h
    cases he
  | some tip =>
    obtain ⟨-, parent, hlink⟩ := h.2.link_of_mem he
    obtain ⟨raw, hget, hrow⟩ := Option.map_eq_some_iff.mp hlink
    exact ⟨raw, hget, (Prod.mk.inj hrow).1⟩

/-- A block stands on a chain once. -/
theorem SelectedChain.eq_of_hash {tip : Option String} {chain : List (Int × String)}
    (h : SelectedChain crypto store db tip chain) {a b : Int × String} (ha : a ∈ chain)
    (hb : b ∈ chain) (heq : a.2 = b.2) : a = b := by
  cases tip with
  | none =>
    obtain rfl := h
    cases ha
  | some tip => exact List.inj_on_of_nodup_map h.2.nodup_blocks ha hb heq

/-! ## Evidence -/

/-- The block that a row of evidence finalizes. -/
def evidenceOf (crypto : Crypto) (store : StoreConfig) (row : FinalityRow) : Int × String :=
  match retained crypto store row with
  | .ok height => (height, row.hash)
  | .error _ => (0, row.hash)

/-- Evidence that is read without an exception. -/
structure ValidEvidence (crypto : Crypto) (store : StoreConfig) (row : FinalityRow) : Prop where
  sized : 1 ≤ row.proof.size ∧ row.proof.size ≤ maxProof ∧
    1 ≤ row.trust.size ∧ row.trust.size ≤ 32768
  valid : retained crypto store row = .ok (evidenceOf crypto store row).1

theorem evidenceOf_hash (crypto : Crypto) (store : StoreConfig) (row : FinalityRow) :
    (evidenceOf crypto store row).2 = row.hash := by
  unfold evidenceOf
  split <;> rfl

theorem mapM_of_ok {α β : Type} {f : α → Stored β} {g : α → β} {xs : List α}
    (h : ∀ a ∈ xs, f a = .ok (g a)) : xs.mapM f = .ok (xs.map g) := by
  have hreads : Reads True (xs.mapM f) (xs.map g) := Reads.mapM fun a ha => Reads.of_eq (h a ha)
  exact hreads.ok trivial

theorem proofs_eq (h : ∀ row ∈ db.finality, ValidEvidence crypto store row) :
    proofs crypto store db = .ok (db.finality.map (evidenceOf crypto store)) := by
  refine mapM_of_ok fun row hrow => ?_
  have hvalid := h row hrow
  rw [check_pos hvalid.sized, hvalid.valid]
  exact congrArg Except.ok (Prod.ext rfl (evidenceOf_hash crypto store row).symm)

/-! ## Sound stores -/

/-- The blocks, the selected tip and the evidence of a store fit together: the tip has a chain,
and every block with evidence is on it. -/
structure Authentic (crypto : Crypto) (store : StoreConfig) (verdict : ByteArray → Outcome)
    (db : Tables) (chain : List (Int × String)) : Prop where
  blocks : BlocksVerified crypto store verdict db
  selected : SelectedChain crypto store db db.selectedTip chain
  evidence : ∀ row ∈ db.finality, ValidEvidence crypto store row
  finalized : ∀ row ∈ db.finality, evidenceOf crypto store row ∈ chain
  finality_nodup : (db.finality.map FinalityRow.hash).Nodup

/-- An authentic store with the derived tables that are determined. -/
structure Sound (crypto : Crypto) (store : StoreConfig) (verdict : ByteArray → Outcome)
    (db : Tables) : Prop extends Authentic crypto store verdict db db.canonicalChain where
  indexed : Indexed crypto store db

/-- The tables with the derived ones as the blocks and a chain determine them. -/
def restored (crypto : Crypto) (store : StoreConfig) (db : Tables)
    (chain : List (Int × String)) : Tables :=
  { db with
    blockIndex := db.blocks.map fun e => derived (recordOf crypto store e.2)
    transactionIndex := db.blocks.flatMap fun e => transactionRows (recordOf crypto store e.2)
    canonicalChain := chain }

theorem sound_restored {chain : List (Int × String)}
    (h : Authentic crypto store verdict db chain) :
    Sound crypto store verdict (restored crypto store db chain) :=
  { blocks := ⟨h.blocks.nodup, h.blocks.verified⟩
    selected := h.selected
    evidence := h.evidence
    finalized := h.finalized
    finality_nodup := h.finality_nodup
    indexed := ⟨rfl, rfl⟩ }

theorem Sound.restored_eq (h : Sound crypto store verdict db) :
    restored crypto store db db.canonicalChain = db := by
  rw [restored, ← h.indexed.blocks, ← h.indexed.transactions]

theorem sound_empty : Sound crypto store verdict {} :=
  { blocks := ⟨List.nodup_nil, nofun⟩
    selected := rfl
    evidence := nofun
    finalized := nofun
    finality_nodup := List.nodup_nil
    indexed := ⟨rfl, rfl⟩ }

theorem selected_reads (hworkers : Faithful verdict workers) {chain : List (Int × String)}
    (h : Authentic crypto store verdict db chain) (indexes compare : Bool)
    (hindexed : indexes = true → Indexed crypto store db)
    (hcompare : compare = true → db.canonicalChain = chain) :
    Reads (Available crypto store workers db)
      (selected crypto store workers db indexes compare) chain := by
  have hlineage := lineage_reads hworkers h.blocks indexes hindexed h.selected
  have hread : Reads (Available crypto store workers db)
      ((lineage crypto store workers db db.selectedTip indexes).mapError historyError) chain := by
    obtain hok | ⟨havailable, message, outcome, herror⟩ := hlineage
    · rw [hok]
      exact Reads.of_eq rfl
    · rw [herror]
      exact Or.inr ⟨havailable, message, outcome, rfl⟩
  refine Reads.bind hread (Reads.bind (Reads.of_eq (check_pos fun hc => ?_)) ?_)
  · rw [hcompare hc]
    exact (h.selected.pairwise_lt.imp le_of_lt).insertionSort_eq
  · rw [proofs_eq h.evidence]
    have hon : ∀ e ∈ db.finality.map (evidenceOf crypto store), e ∈ chain := by
      intro e he
      obtain ⟨row, hrow, rfl⟩ := List.mem_map.mp he
      exact h.finalized row hrow
    exact Reads.bind (Reads.of_eq rfl)
      (Reads.bind (Reads.of_eq (check_pos hon)) (Reads.of_eq rfl))

theorem Sound.selected_reads (h : Sound crypto store verdict db)
    (hworkers : Faithful verdict workers) :
    Reads (Available crypto store workers db) (selected crypto store workers db true true)
      db.canonicalChain :=
  CanonicalV3.selected_reads hworkers h.toAuthentic true true (fun _ => h.indexed) fun _ => rfl

end CanonicalV3

end ZoidbergChain
