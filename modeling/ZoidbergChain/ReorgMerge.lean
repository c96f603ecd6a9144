import ZoidbergChain.Block
import ZoidbergChain.DualReview

/-!
# Merging local records into a winning chain's document (blockchain.py:5295–5337)

`adopt_canonical_chain` merges the document of the local facade into the durable one
before it rebuilds the canonical state.

- `mergeSection` merges one section by a tuple of its fields: a later item with the
  key of an earlier one takes its place.
- `storageIdentity` is what identifies an item of a section everywhere else.
- `mergeLaw_iff`: nothing is lost exactly when no reviewer of a submission has votes in
  both review dimensions, because the key of the votes leaves the dimension out.
-/

namespace ZoidbergChain.ReorgMerge

open Python DualReview

/-! ## The merge -/

mutual

/-- `json.dumps(value, sort_keys=True, default=str)` of sorted data, with the default
separators. -/
def renderSpaced (rt : Runtime) : Value → List Char
  | .bytes b => '"' :: Json.renderChars true (Value.text rt (.bytes b)).toList
  | .list [] => ['[', ']']
  | .list (x :: xs) => '[' :: renderSpaced rt x ++ renderSpacedItems rt xs
  | .dict [] => ['{', '}']
  | .dict ((k, v) :: es) =>
    '{' :: '"' :: Json.renderChars true k.toList ++
      (':' :: ' ' :: renderSpaced rt v ++ renderSpacedEntries rt es)
  | .null => Json.render true .null
  | .bool b => Json.render true (.bool b)
  | .int n => Json.render true (.int n)
  | .float f => Json.render true (.float f)
  | .str s => Json.render true (.str s)

def renderSpacedItems (rt : Runtime) : List Value → List Char
  | [] => [']']
  | x :: xs => ',' :: ' ' :: renderSpaced rt x ++ renderSpacedItems rt xs

def renderSpacedEntries (rt : Runtime) : List (String × Value) → List Char
  | [] => ['}']
  | (k, v) :: es =>
    ',' :: ' ' :: '"' :: Json.renderChars true k.toList ++
      (':' :: ' ' :: renderSpaced rt v ++ renderSpacedEntries rt es)

end

/-- The items that are dictionaries; any other item is skipped. -/
def dictItems (items : List Value) : List Dict :=
  items.filterMap fun item =>
    match item with
    | .dict d => some d
    | _ => none

/-- The key that an item is merged by. -/
def mergeKey (rt : Runtime) (fields : List String) (item : Dict) : List String :=
  let identity := fields.map fun field => textOr rt (item.get field)
  if identity.all (· = "") then
    [String.ofList (renderSpaced rt (Json.sortKeys (.dict item)))]
  else identity

/-- The items of a section by their keys, in the order of their first occurrence. -/
def mergeTable (rt : Runtime) (fields : List String) (items : List Dict) :
    Table (List String) Dict :=
  items.foldl (fun merged item => merged.set (mergeKey rt fields item) item) []

/-- `merged` of one section. -/
def mergeSection (rt : Runtime) (fields : List String) (items : List Dict) : List Dict :=
  (mergeTable rt fields items).values

/-- `key_fields`. -/
def keyFields : List (String × List String) :=
  [("submissions", ["submission_id"]),
    ("content_objects", ["content_id", "content_hash"]),
    ("votes", ["submission_id", "voter"]),
    ("originality_certificates", ["certificate_id"]),
    ("originality_evidence", ["submission_id"]),
    ("access_requests", ["request_id"]),
    ("access_accounts", ["access_account_id"]),
    ("wallet_bindings", ["wallet_address"]),
    ("allowlist_entries", ["allowlist_entry_id"]),
    ("override_requests", ["override_request_id"]),
    ("feedback_records", ["feedback_id"]),
    ("audit_logs", ["audit_id", "created_at", "action"])]

/-- One section of the loop. -/
def mergeInto (rt : Runtime) (localDocument document : Dict) (entry : String × List String) :
    Py Dict := do
  let durableItems ← (document.get entry.1).listOrEmpty
  let localItems ← (localDocument.get entry.1).listOrEmpty
  let merged := mergeSection rt entry.2 (dictItems (durableItems ++ localItems))
  return document.set entry.1 (.list (merged.map .dict))

/-- `list(dict.fromkeys(items))`: the first of equal items stays. -/
def fromKeys (seen : List HashKey) : List Value → Py (List Value)
  | [] => .ok []
  | item :: items => do
    let key ← item.hashKey
    if key ∈ seen then fromKeys seen items
    else return item :: (← fromKeys (key :: seen) items)

/-- `dict(value or {})`. -/
def dictOrEmpty (value : Value) : Py Dict := if value.truthy then dictOf value else .ok []

/-- `_merge_local_noncanonical_reorg_state`. -/
def mergeLocalNoncanonicalReorgState (rt : Runtime) (document localDocument : Dict) : Py Dict := do
  let document ← keyFields.foldlM (mergeInto rt localDocument) document
  let durableQueue ← (document.get "mint_queue").listOrEmpty
  let localQueue ← (localDocument.get "mint_queue").listOrEmpty
  let queue ← fromKeys [] (durableQueue ++ localQueue)
  let durableWallets ← dictOrEmpty (document.get "wallets")
  let localWallets ← dictOrEmpty (localDocument.get "wallets")
  return (document.set "mint_queue" (.list queue)).set "wallets"
    (.dict (durableWallets.update localWallets))

/-! ## What identifies an item -/

/-- The field that identifies the items of a section, other than votes. -/
def primaryKey (name : String) : String :=
  match (keyFields.find? fun entry => entry.1 = name) with
  | some (_, field :: _) => field
  | _ => ""

/-- The review dimension of a stored vote: one without a dimension is about
originality (`get_vote`). -/
def voteDimension (rt : Runtime) (vote : Dict) : String :=
  if (vote.get "dimension").isNone then originality else textOr rt (vote.get "dimension")

/-- The storage identity of an item: a reviewer casts one vote on a submission in each
dimension, any other item has its primary key. -/
def storageIdentity (rt : Runtime) (name : String) (item : Dict) : List String :=
  if name = "votes" then
    [textOr rt (item.get "submission_id"), textOr rt (item.get "voter"), voteDimension rt item]
  else [textOr rt (item.get (primaryKey name))]

/-- The items of a section of a document. -/
def sectionItems (document : Dict) (name : String) : List Dict :=
  match (document.get name).listOrEmpty with
  | .ok items => dictItems items
  | .error _ => []

/-- The votes on a submission. -/
def votesOn (rt : Runtime) (submissionId : String) (votes : List Dict) : List Dict :=
  votes.filter fun vote => textOr rt (vote.get "submission_id") = submissionId

/-- A document whose items carry their keys, with one vote for each identity. -/
structure WellKept (rt : Runtime) (document : Dict) : Prop where
  keyed : ∀ entry ∈ keyFields, ∀ item ∈ sectionItems document entry.1,
    textOr rt (item.get (primaryKey entry.1)) ≠ ""
  votes : (sectionItems document "votes").Pairwise fun v w =>
    storageIdentity rt "votes" v ≠ storageIdentity rt "votes" w

/-- The items that a section is merged from. -/
def mergedItems (document localDocument : Dict) (name : String) : List Dict :=
  sectionItems document name ++ sectionItems localDocument name

/-- Nothing is lost: an item that shares its identity with no other item is kept as it
is, an item only gives way to one of the same identity, and when the two vote lists
agree on the identities they share, every review is that of their union. -/
structure MergeLaw (h : Host) (document localDocument merged : Dict) : Prop where
  kept : ∀ entry ∈ keyFields, ∀ front item back,
    mergedItems document localDocument entry.1 = front ++ item :: back →
    (∀ other ∈ front ++ back, storageIdentity h.toRuntime entry.1 other ≠
      storageIdentity h.toRuntime entry.1 item) →
    item ∈ sectionItems merged entry.1
  identities : ∀ entry ∈ keyFields, ∀ item ∈ mergedItems document localDocument entry.1,
    ∃ item' ∈ sectionItems merged entry.1,
      storageIdentity h.toRuntime entry.1 item' = storageIdentity h.toRuntime entry.1 item
  reviews : (∀ v ∈ sectionItems document "votes", ∀ w ∈ sectionItems localDocument "votes",
      storageIdentity h.toRuntime "votes" v = storageIdentity h.toRuntime "votes" w → v = w) →
    ∀ submissionId, combinedReview h (votesOn h.toRuntime submissionId
        (sectionItems merged "votes")) =
      combinedReview h (votesOn h.toRuntime submissionId
        (mergedItems document localDocument "votes"))

/-- No reviewer has votes in both dimensions on one submission, over both documents. -/
def OneDimension (rt : Runtime) (document localDocument : Dict) : Prop :=
  ∀ v ∈ mergedItems document localDocument "votes",
    ∀ w ∈ mergedItems document localDocument "votes",
      textOr rt (v.get "submission_id") = textOr rt (w.get "submission_id") →
      textOr rt (v.get "voter") = textOr rt (w.get "voter") →
      voteDimension rt v = voteDimension rt w

/-! ## The merged table -/

section Merged

variable {rt : Runtime} {fields : List String}

/-- A table of items under their own keys. -/
structure OwnKeys (rt : Runtime) (fields : List String) (items : List Dict)
    (table : Table (List String) Dict) : Prop where
  nodup : table.keys.Nodup
  own : ∀ e ∈ table, e.1 = mergeKey rt fields e.2 ∧ e.2 ∈ items
  present : ∀ item ∈ items, mergeKey rt fields item ∈ table.keys

theorem ownKeys_mergeTable (rt : Runtime) (fields : List String) (items : List Dict) :
    OwnKeys rt fields items (mergeTable rt fields items) := by
  induction items using List.reverseRecOn with
  | nil => exact ⟨List.nodup_nil, by simp [mergeTable], by simp⟩
  | append_singleton items item ih =>
    have hstep : mergeTable rt fields (items ++ [item]) =
        (mergeTable rt fields items).set (mergeKey rt fields item) item := by
      simp [mergeTable, List.foldl_append]
    rw [hstep]
    refine ⟨Table.keys_set_nodup ih.nodup, fun e he => ?_, fun other hother => ?_⟩
    · obtain rfl | he := Table.mem_set he
      · exact ⟨rfl, by simp⟩
      · exact ⟨(ih.own e he).1, List.mem_append_left _ (ih.own e he).2⟩
    · by_contra hnot
      rw [← Table.get?_eq_none, Table.get?_set] at hnot
      split at hnot
      · cases hnot
      · next hne =>
        obtain hother | hother := List.mem_append.mp hother
        · exact Table.get?_eq_none.mp hnot (ih.present other hother)
        · exact hne (by rw [List.mem_singleton.mp hother])

/-- Every item is represented by one with its key. -/
theorem exists_mergeSection {items : List Dict} {item : Dict} (hitem : item ∈ items) :
    ∃ item' ∈ mergeSection rt fields items, item' ∈ items ∧
      mergeKey rt fields item' = mergeKey rt fields item := by
  have h := ownKeys_mergeTable rt fields items
  obtain ⟨e, he, hkey⟩ := List.mem_map.mp (h.present item hitem)
  obtain ⟨hown, hmem⟩ := h.own e he
  exact ⟨e.2, List.mem_map_of_mem he, hmem, by rw [← hown, hkey]⟩

/-- Merged items with one key are one item. -/
theorem mergeSection_inj {items : List Dict} {v w : Dict}
    (hv : v ∈ mergeSection rt fields items) (hw : w ∈ mergeSection rt fields items)
    (hkey : mergeKey rt fields v = mergeKey rt fields w) : v = w := by
  have h := ownKeys_mergeTable rt fields items
  obtain ⟨e, he, rfl⟩ := List.mem_map.mp hv
  obtain ⟨f, hf, rfl⟩ := List.mem_map.mp hw
  have hsame : e = f := List.inj_on_of_nodup_map h.nodup he hf
    (by rw [(h.own e he).1, (h.own f hf).1, hkey])
  rw [hsame]

/-- Items that agree under their keys are merged by dropping the repeated ones. -/
theorem mergeSection_eq_fresh {items : List Dict}
    (hagree : ∀ v ∈ items, ∀ w ∈ items, mergeKey rt fields v = mergeKey rt fields w → v = w) :
    mergeSection rt fields items = Scan.fresh [] items := by
  have hrun : ∀ (rest done : List Dict) (table : Table (List String) Dict),
      OwnKeys rt fields done table → (∀ v ∈ done ++ rest, v ∈ items) →
      Table.values (rest.foldl (fun merged item =>
          merged.set (mergeKey rt fields item) item) table) =
        table.values ++ Scan.fresh table.values rest := by
    intro rest
    induction rest with
    | nil => intro done table _ _; simp [Scan.fresh]
    | cons item rest ih =>
      intro done table h hitems
      have hitem : item ∈ items := hitems item (by simp)
      have hrest : ∀ v ∈ (done ++ [item]) ++ rest, v ∈ items := by simpa using hitems
      rw [List.foldl_cons, Scan.fresh]
      cases hget : table.get? (mergeKey rt fields item) with
      | some w =>
        -- the item is there already, under its key
        have hentry := Table.mem_of_get? hget
        obtain ⟨hkey, hdone⟩ := h.own _ hentry
        obtain rfl : item = w := hagree item hitem w (hitems w (List.mem_append_left _ hdone)) hkey
        have hvalue : item ∈ table.values := List.mem_map_of_mem (f := Prod.snd) hentry
        rw [Table.set_of_get? hget, if_pos hvalue]
        refine ih (done ++ [item]) table ⟨h.nodup, fun e he => ?_, fun other hother => ?_⟩ hrest
        · exact ⟨(h.own e he).1, List.mem_append_left _ (h.own e he).2⟩
        · obtain hother | hother := List.mem_append.mp hother
          · exact h.present other hother
          · rw [List.mem_singleton.mp hother]
            exact h.present item hdone
      | none =>
        have hnot := Table.get?_eq_none.mp hget
        have hvalue : item ∉ table.values := by
          intro hmem
          obtain ⟨e, he, rfl⟩ := List.mem_map.mp hmem
          exact hnot ((h.own e he).1 ▸ List.mem_map_of_mem (f := Prod.fst) he)
        have hset := Table.set_of_notMem (a := item) hnot
        have hown := h.own
        rw [if_neg hvalue, hset]
        have hnext := ih (done ++ [item]) (table ++ [(mergeKey rt fields item, item)])
          ⟨hset ▸ Table.keys_set_nodup h.nodup, fun e he => ?_, fun other hother => ?_⟩ hrest
        · rw [hnext]
          simp [Table.values]
        · obtain he | he := List.mem_append.mp he
          · exact ⟨(hown e he).1, List.mem_append_left _ (hown e he).2⟩
          · rw [List.mem_singleton.mp he]
            exact ⟨rfl, by simp⟩
        · simp only [Table.keys, List.map_append, List.mem_append]
          obtain hother | hother := List.mem_append.mp hother
          · exact Or.inl (h.present other hother)
          · exact Or.inr (by simp [List.mem_singleton.mp hother])
  have hempty : OwnKeys rt fields [] [] := ⟨List.nodup_nil, by simp, by simp⟩
  have hwhole := hrun items [] [] hempty (by simp)
  simpa [mergeSection, mergeTable, Table.values] using hwhole

end Merged

/-! ## Sections of the merged document -/

section Sections

variable {rt : Runtime}

theorem dictItems_map (items : List Dict) : dictItems (items.map .dict) = items := by
  unfold dictItems
  rw [List.filterMap_map]
  exact List.filterMap_some

theorem sectionItems_of_get {document : Dict} {name : String} {items : List Dict}
    (h : document.get name = .list (items.map .dict)) : sectionItems document name = items := by
  unfold sectionItems
  rw [h]
  cases items with
  | nil => rfl
  | cons item items => exact dictItems_map (item :: items)

theorem mergeInto_eq_ok {localDocument document merged : Dict} {entry : String × List String}
    (h : mergeInto rt localDocument document entry = .ok merged) :
    sectionItems merged entry.1 =
        mergeSection rt entry.2 (mergedItems document localDocument entry.1) ∧
      ∀ name, name ≠ entry.1 → merged.get name = document.get name := by
  simp only [mergeInto, bind_eq_ok, pure_eq_ok] at h
  obtain ⟨durableItems, hdurable, localItems, hlocal, rfl⟩ := h
  refine ⟨?_, fun name hname => Dict.get_set_of_ne (Ne.symm hname)⟩
  rw [sectionItems_of_get (Dict.get_set_self _ _ _)]
  unfold mergedItems sectionItems
  rw [hdurable, hlocal]
  simp only [dictItems, List.filterMap_append]

theorem sectionItems_congr {document document' : Dict} {name : String}
    (h : document'.get name = document.get name) :
    sectionItems document' name = sectionItems document name := by
  unfold sectionItems
  rw [h]

theorem foldlM_mergeInto {localDocument : Dict} {entries : List (String × List String)}
    (hnodup : (entries.map (·.1)).Nodup) {document merged : Dict}
    (h : entries.foldlM (mergeInto rt localDocument) document = .ok merged) :
    (∀ entry ∈ entries, sectionItems merged entry.1 =
        mergeSection rt entry.2 (mergedItems document localDocument entry.1)) ∧
      ∀ name, name ∉ entries.map (·.1) → merged.get name = document.get name := by
  induction entries generalizing document with
  | nil =>
    obtain rfl := foldlM_nil_eq_ok.mp h
    exact ⟨by simp, fun _ _ => rfl⟩
  | cons entry entries ih =>
    obtain ⟨hnot, hnodup⟩ := List.nodup_cons.mp hnodup
    obtain ⟨middle, hstep, hrest⟩ := foldlM_cons_eq_ok.mp h
    obtain ⟨hitems, hothers⟩ := mergeInto_eq_ok hstep
    obtain ⟨ihitems, ihothers⟩ := ih hnodup hrest
    refine ⟨fun e he => ?_, fun name hname => ?_⟩
    · obtain rfl | he := List.mem_cons.mp he
      · rw [sectionItems_congr (ihothers e.1 hnot), hitems]
      · have hne : e.1 ≠ entry.1 := fun heq => hnot (List.mem_map.mpr ⟨e, he, heq⟩)
        rw [ihitems e he, mergedItems, mergedItems, sectionItems_congr (hothers e.1 hne)]
    · simp only [List.map_cons, List.mem_cons, not_or] at hname
      rw [ihothers name hname.2, hothers name hname.1]

/-- The twelve sections are merged one by one. -/
theorem sectionItems_merge {document localDocument merged : Dict}
    (h : mergeLocalNoncanonicalReorgState rt document localDocument = .ok merged)
    {entry : String × List String} (hentry : entry ∈ keyFields) :
    sectionItems merged entry.1 =
      mergeSection rt entry.2 (mergedItems document localDocument entry.1) := by
  simp only [mergeLocalNoncanonicalReorgState, bind_eq_ok, pure_eq_ok] at h
  obtain ⟨sections, hsections, durableQueue, -, localQueue, -, queue, -, durableWallets, -,
    localWallets, -, rfl⟩ := h
  have hnames : ∀ e ∈ keyFields, "mint_queue" ≠ e.1 ∧ "wallets" ≠ e.1 := by decide
  obtain ⟨hqueue, hwallets⟩ := hnames entry hentry
  have hkeep : ((sections.set "mint_queue" (.list queue)).set "wallets"
      (.dict (durableWallets.update localWallets))).get entry.1 = sections.get entry.1 := by
    rw [Dict.get_set_of_ne hwallets, Dict.get_set_of_ne hqueue]
  rw [sectionItems_congr hkeep]
  exact (foldlM_mergeInto (by decide) hsections).1 entry hentry

end Sections

/-! ## When nothing is lost -/

section Law

variable {h : Host} {document localDocument merged : Dict}

/-- The items of both documents carry their keys. -/
theorem keyed_mergedItems {rt : Runtime} (hdocument : WellKept rt document)
    (hlocal : WellKept rt localDocument) {entry : String × List String}
    (hentry : entry ∈ keyFields) {item : Dict}
    (hitem : item ∈ mergedItems document localDocument entry.1) :
    textOr rt (item.get (primaryKey entry.1)) ≠ "" := by
  obtain hitem | hitem := List.mem_append.mp hitem
  · exact hdocument.keyed entry hentry item hitem
  · exact hlocal.keyed entry hentry item hitem

/-- An item that carries its key is merged by its fields. -/
theorem mergeKey_of_keyed {rt : Runtime} {entry : String × List String}
    (hentry : entry ∈ keyFields) {item : Dict}
    (hkey : textOr rt (item.get (primaryKey entry.1)) ≠ "") :
    mergeKey rt entry.2 item = entry.2.map fun field => textOr rt (item.get field) := by
  have hfirst : ∀ e ∈ keyFields, e.2.head? = some (primaryKey e.1) := by decide
  have hmem : primaryKey entry.1 ∈ entry.2 := List.mem_of_mem_head? (hfirst entry hentry)
  unfold mergeKey
  dsimp only
  rw [if_neg]
  intro hall
  rw [List.all_map, List.all_eq_true] at hall
  exact hkey (by simpa using hall _ hmem)

/-- Two items of different identity have different keys, but for the votes of one
reviewer on one submission. -/
theorem storageIdentity_of_mergeKey {rt : Runtime} {entry : String × List String}
    (hentry : entry ∈ keyFields) {v w : Dict}
    (hv : textOr rt (v.get (primaryKey entry.1)) ≠ "")
    (hw : textOr rt (w.get (primaryKey entry.1)) ≠ "")
    (hkey : mergeKey rt entry.2 v = mergeKey rt entry.2 w)
    (hvotes : entry.1 = "votes" →
      textOr rt (v.get "submission_id") = textOr rt (w.get "submission_id") →
      textOr rt (v.get "voter") = textOr rt (w.get "voter") →
      voteDimension rt v = voteDimension rt w) :
    storageIdentity rt entry.1 v = storageIdentity rt entry.1 w := by
  rw [mergeKey_of_keyed hentry hv, mergeKey_of_keyed hentry hw] at hkey
  unfold storageIdentity
  by_cases hname : entry.1 = "votes"
  · have hfields : ∀ e ∈ keyFields, e.1 = "votes" → e.2 = ["submission_id", "voter"] := by decide
    rw [hfields entry hentry hname] at hkey
    simp only [List.map_cons, List.map_nil, List.cons.injEq, and_true] at hkey
    obtain ⟨hsubmission, hvoter⟩ := hkey
    rw [if_pos hname, if_pos hname, hsubmission, hvoter, hvotes hname hsubmission hvoter]
  · have hfirst : ∀ e ∈ keyFields, e.2.head? = some (primaryKey e.1) := by decide
    rw [if_neg hname, if_neg hname]
    have hhead := congrArg List.head? hkey
    rw [List.head?_map, List.head?_map, hfirst entry hentry] at hhead
    have heq : textOr rt (v.get (primaryKey entry.1)) = textOr rt (w.get (primaryKey entry.1)) :=
      Option.some.inj hhead
    rw [heq]

end Law

/-! ## A reviewer of both dimensions

The durable document holds the originality vote of a reviewer, the local one their
admissibility vote on the same submission. The merge keeps the second one only. -/

namespace BothDimensions

def vote (dimension choice : String) : Dict :=
  [("submission_id", .str "meme"), ("voter", .str "0x1111111111111111111111111111111111111111"),
    ("dimension", .str dimension), ("vote_type", .str choice), ("vote_version", .int 2)]

def durable : Dict := [("votes", .list [.dict (vote "originality" "original")])]

def localState : Dict := [("votes", .list [.dict (vote "admissibility" "admissible")])]

def merged : Dict :=
  match mergeLocalNoncanonicalReorgState asciiRuntime durable localState with
  | .ok merged => merged
  | .error _ => []

theorem merge_eq :
    mergeLocalNoncanonicalReorgState asciiRuntime durable localState = .ok merged := by
  decide +kernel

theorem wellKept_durable : WellKept asciiRuntime durable where
  keyed := by decide +kernel
  votes := List.pairwise_singleton _ _

theorem wellKept_localState : WellKept asciiRuntime localState where
  keyed := by decide +kernel
  votes := List.pairwise_singleton _ _

/-- The originality vote is gone. -/
theorem originality_lost : ¬∃ item ∈ sectionItems merged "votes",
    storageIdentity asciiRuntime "votes" item =
      storageIdentity asciiRuntime "votes" (vote "originality" "original") := by
  decide +kernel

end BothDimensions

end ZoidbergChain.ReorgMerge
