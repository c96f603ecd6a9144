import ZoidbergChain.PeerMessage.Envelope

/-!
# The replay store (protocol_v1_peer_message.py:591–724)

`ProtocolV1PeerReplayStore`: the messages that were accepted, in a file that outlives the process.

- `loadEntries` reads the file, or its backup when it cannot be read; `save` replaces it.
- `rejectReplayOrRecord` refuses a message id or a nonce that the file still holds.
- `loadEntries_save`: what was saved is read again.
- `rejectReplayOrRecord_spec` is all that a call that goes through does.

A save replaces the file as a whole.
-/

namespace ZoidbergChain

open Python

namespace PeerMessage

/-! ## Entries -/

/-- An entry of the replay state. -/
structure ReplayEntry where
  senderNodeId : String
  nonce : String
  messageId : String
  timestamp : Int
  expiresAt : Int
  deriving DecidableEq

/-- The entry as it is written. -/
def ReplayEntry.toDict (e : ReplayEntry) : Dict :=
  [("sender_node_id", .str e.senderNodeId), ("nonce", .str e.nonce),
    ("message_id", .str e.messageId), ("timestamp", .int e.timestamp),
    ("expires_at", .int e.expiresAt)]

/-- `_normalize_entry`. -/
def normalizeEntry (rt : Runtime) : Value → Py ReplayEntry
  | .dict d => do
    return {
      senderNodeId := ← normalizePeerSenderNodeId (Dict.get d "sender_node_id")
      nonce := ← normalizePeerNonce (Dict.get d "nonce")
      messageId := ← normalizePeerMessageId (Dict.get d "message_id")
      timestamp := ← normalizePeerTimestamp rt (Dict.get d "timestamp")
      expiresAt := ← normalizeNonNegativeInt rt (Dict.get d "expires_at") "expires_at" }
  | _ => .error (.value "Peer replay state entry must be an object.")

/-- The order of the entries in the file. -/
def ReplayEntry.key (e : ReplayEntry) : Int ×ₗ String ×ₗ String ×ₗ String :=
  toLex (e.expiresAt, toLex (e.senderNodeId, toLex (e.nonce, e.messageId)))

def sortReplayEntries (entries : List ReplayEntry) : List ReplayEntry :=
  entries.insertionSort fun a b => a.key ≤ b.key

/-! ## The files -/

/-- What a JSON file holds: `unreadable` is text that is no JSON, or no object. -/
inductive StateFile where
  | missing
  | unreadable
  | object (document : Dict)
  deriving DecidableEq

/-- The state file and its backup. -/
structure ReplayFiles where
  main : StateFile := .missing
  backup : StateFile := .missing
  deriving DecidableEq

/-- The entries of a document. -/
def documentEntries (rt : Runtime) (document : Dict) : Py (List ReplayEntry) :=
  match document.getD "entries" (.list []) with
  | .list entries => do
    return sortReplayEntries (← entries.mapM (normalizeEntry rt))
  | _ => .error (.value "Peer replay state entries must be a list.")

/-- The entries of `_load_document`. -/
def loadEntries (rt : Runtime) (files : ReplayFiles) : Py (List ReplayEntry) :=
  match files.main, files.backup with
  | .missing, _ => .ok []
  | .object document, _ | .unreadable, .object document => documentEntries rt document
  | .unreadable, _ => .error (.value
      "Peer replay state is unavailable because the persisted state is corrupt.")

/-- `PROTOCOL_V1_PEER_REPLAY_STATE_VERSION`. -/
def replayStateVersion : Int := 1

/-- The document of some entries. -/
def replayDocument (retentionWindowSeconds : Int) (entries : List ReplayEntry) : Dict :=
  [("replay_state_version", .int replayStateVersion),
    ("retention_window_seconds", .int retentionWindowSeconds),
    ("entries", .list (entries.map fun e => .dict e.toDict))]

/-- `_save_document`: the backup is what was there before, or else the new document. -/
def save (files : ReplayFiles) (document : Dict) : ReplayFiles where
  main := .object document
  backup :=
    match files.main, files.backup with
    | .missing, .missing => .object document
    | .missing, backup => backup
    | main, _ => main

/-- `_prune_entries`. -/
def pruneEntries (entries : List ReplayEntry) (now : Int) : List ReplayEntry :=
  entries.filter (now ≤ ·.expiresAt)

/-- `reject_replay_or_record`, with the clock reading `now`. -/
def rejectReplayOrRecord (rt : Runtime) (retentionWindowSeconds : Int) (files : ReplayFiles)
    (senderNodeId nonce messageId : String) (timestamp now : Int) : Py ReplayFiles := do
  let senderNodeId ← normalizePeerSenderNodeId (.str senderNodeId)
  let nonce ← normalizePeerNonce (.str nonce)
  let messageId ← normalizePeerMessageId (.str messageId)
  let timestamp ← normalizePeerTimestamp rt (.int timestamp)
  let now ← normalizePeerTimestamp rt (.int now)
  let entries := pruneEntries (← loadEntries rt files) now
  entries.forM fun entry => do
    require (entry.messageId ≠ messageId) (.value "Replayed peer message.")
    require (¬(entry.senderNodeId = senderNodeId ∧ entry.nonce = nonce))
      (.value "Replayed peer nonce.")
  let entry : ReplayEntry :=
    { senderNodeId, nonce, messageId, timestamp, expiresAt := timestamp + retentionWindowSeconds }
  return save files (replayDocument retentionWindowSeconds (sortReplayEntries (entries ++ [entry])))

/-! ## What was saved is read again -/

/-- An entry that is written as it was read. -/
structure ReplayEntry.Valid (e : ReplayEntry) : Prop where
  sender : normalizePeerSenderNodeId (.str e.senderNodeId) = .ok e.senderNodeId
  nonce : normalizePeerNonce (.str e.nonce) = .ok e.nonce
  message : normalizePeerMessageId (.str e.messageId) = .ok e.messageId
  timestamp : 0 ≤ e.timestamp
  expires : 0 ≤ e.expiresAt

theorem normalizePeerSenderNodeId_idem {value : Value} {s : String}
    (h : normalizePeerSenderNodeId value = .ok s) : normalizePeerSenderNodeId (.str s) = .ok s := by
  cases value with
  | str t =>
    obtain ⟨_, ht, ⟨⟩⟩ := bind_eq_ok.mp h
    have ht := require_eq_ok.mp ht
    rw [← strip_strip] at ht
    rw [normalizePeerSenderNodeId, require_pos ht, strip_strip]
    rfl
  | _ => cases h

theorem normalizePeerNonce_idem {value : Value} {s : String}
    (h : normalizePeerNonce value = .ok s) : normalizePeerNonce (.str s) = .ok s := by
  cases value with
  | str t =>
    obtain ⟨_, hne, h⟩ := bind_eq_ok.mp h
    obtain ⟨_, hvalid, ⟨⟩⟩ := bind_eq_ok.mp h
    have hne := require_eq_ok.mp hne
    have hvalid := require_eq_ok.mp hvalid
    rw [normalizePeerNonce, strip_strip, require_pos hne, require_pos hvalid]
    rfl
  | _ => cases h

theorem normalizePeerMessageId_idem {value : Value} {s : String}
    (h : normalizePeerMessageId value = .ok s) : normalizePeerMessageId (.str s) = .ok s := by
  cases value with
  | str t =>
    obtain ⟨_, ht, ⟨⟩⟩ := bind_eq_ok.mp h
    have ht := require_eq_ok.mp ht
    rw [normalizePeerMessageId, strip_strip, require_pos ht]
    rfl
  | _ => cases h

theorem nonneg_of_timestamp {rt : Runtime} {value : Value} {n : Int}
    (h : normalizePeerTimestamp rt value = .ok n) : 0 ≤ n := by
  obtain ⟨m, -, h⟩ := bind_eq_ok.mp h
  obtain ⟨_, hm, ⟨⟩⟩ := bind_eq_ok.mp h
  exact require_eq_ok.mp hm

theorem nonneg_of_nonNegativeInt {rt : Runtime} {value : Value} {fieldName : String} {n : Int}
    (h : normalizeNonNegativeInt rt value fieldName = .ok n) : 0 ≤ n := by
  obtain ⟨m, -, h⟩ := bind_eq_ok.mp h
  obtain ⟨_, hm, ⟨⟩⟩ := bind_eq_ok.mp h
  exact require_eq_ok.mp hm

section Entries

variable {h : Host} {e : ReplayEntry} {entries : List ReplayEntry}

theorem valid_of_normalizeEntry {value : Value}
    (hentry : normalizeEntry h.toRuntime value = .ok e) : e.Valid := by
  cases value with
  | dict d =>
    obtain ⟨sender, hsender, hentry⟩ := bind_eq_ok.mp hentry
    obtain ⟨nonce, hnonce, hentry⟩ := bind_eq_ok.mp hentry
    obtain ⟨message, hmessage, hentry⟩ := bind_eq_ok.mp hentry
    obtain ⟨timestamp, htimestamp, hentry⟩ := bind_eq_ok.mp hentry
    obtain ⟨expires, hexpires, ⟨⟩⟩ := bind_eq_ok.mp hentry
    exact ⟨normalizePeerSenderNodeId_idem hsender, normalizePeerNonce_idem hnonce,
      normalizePeerMessageId_idem hmessage, nonneg_of_timestamp htimestamp,
      nonneg_of_nonNegativeInt hexpires⟩
  | _ => cases hentry

theorem normalizeEntry_toDict (he : e.Valid) :
    normalizeEntry h.toRuntime (.dict e.toDict) = .ok e := by
  have hexpires : normalizeNonNegativeInt h.toRuntime (.int e.expiresAt) "expires_at" =
      .ok e.expiresAt := by
    unfold normalizeNonNegativeInt integerField
    simp only [parseInt_text he.expires, orRaise, ok_bind, require_pos he.expires]
    rfl
  show (do
    return {
      senderNodeId := ← normalizePeerSenderNodeId (.str e.senderNodeId)
      nonce := ← normalizePeerNonce (.str e.nonce)
      messageId := ← normalizePeerMessageId (.str e.messageId)
      timestamp := ← normalizePeerTimestamp h.toRuntime (.int e.timestamp)
      expiresAt := ← normalizeNonNegativeInt h.toRuntime (.int e.expiresAt) "expires_at"
        : ReplayEntry } : Py ReplayEntry) = _
  rw [he.sender, he.nonce, he.message, normalizePeerTimestamp_int he.timestamp, hexpires]
  rfl

theorem mem_sortReplayEntries : e ∈ sortReplayEntries entries ↔ e ∈ entries :=
  (List.perm_insertionSort _ entries).mem_iff

theorem documentEntries_valid {document : Dict}
    (hentries : documentEntries h.toRuntime document = .ok entries) : ∀ e ∈ entries, e.Valid := by
  unfold documentEntries at hentries
  split at hentries
  · next values _ =>
    obtain ⟨es, hes, ⟨⟩⟩ := bind_eq_ok.mp hentries
    intro e he
    obtain ⟨value, -, hvalue⟩ := mapM_eq_ok_mem hes e (mem_sortReplayEntries.mp he)
    exact valid_of_normalizeEntry hvalue
  · cases hentries

theorem loadEntries_valid {files : ReplayFiles}
    (hentries : loadEntries h.toRuntime files = .ok entries) : ∀ e ∈ entries, e.Valid := by
  unfold loadEntries at hentries
  split at hentries
  · cases hentries
    simp
  · exact documentEntries_valid hentries
  · exact documentEntries_valid hentries
  · cases hentries

/-- What was saved is read again. -/
theorem loadEntries_save (files : ReplayFiles) (retentionWindowSeconds : Int)
    (hvalid : ∀ e ∈ entries, e.Valid) :
    loadEntries h.toRuntime (save files (replayDocument retentionWindowSeconds entries)) =
      .ok (sortReplayEntries entries) := by
  show (do return sortReplayEntries (← (entries.map fun e => Value.dict e.toDict).mapM
    (normalizeEntry h.toRuntime)) : Py (List ReplayEntry)) = _
  rw [mapM_map_of_forall fun e he => normalizeEntry_toDict (hvalid e he)]
  rfl

/-- All that a call that goes through does. -/
structure Records (h : Host) (retentionWindowSeconds : Int) (files files' : ReplayFiles)
    (entry : ReplayEntry) (now : Int) : Prop where
  /-- The state is read again, with the entry and whatever had not expired. -/
  kept : ∃ entries entries', loadEntries h.toRuntime files = .ok entries ∧
    loadEntries h.toRuntime files' = .ok entries' ∧ entry ∈ entries' ∧
      ∀ e ∈ entries, now ≤ e.expiresAt → e ∈ entries' ∧ e.messageId ≠ entry.messageId ∧
        ¬(e.senderNodeId = entry.senderNodeId ∧ e.nonce = entry.nonce)
  expires : entry.expiresAt = entry.timestamp + retentionWindowSeconds

theorem rejectReplayOrRecord_spec {files files' : ReplayFiles}
    {retentionWindowSeconds timestamp now : Int} (hretention : 0 ≤ retentionWindowSeconds)
    {senderNodeId nonce messageId : String}
    (hsender : normalizePeerSenderNodeId (.str senderNodeId) = .ok senderNodeId)
    (hnonce : normalizePeerNonce (.str nonce) = .ok nonce)
    (hmessage : normalizePeerMessageId (.str messageId) = .ok messageId)
    (htimestamp : 0 ≤ timestamp)
    (hok : rejectReplayOrRecord h.toRuntime retentionWindowSeconds files senderNodeId nonce
      messageId timestamp now = .ok files') :
    Records h retentionWindowSeconds files files'
      ⟨senderNodeId, nonce, messageId, timestamp, timestamp + retentionWindowSeconds⟩ now := by
  simp only [rejectReplayOrRecord, hsender, hnonce, hmessage, normalizePeerTimestamp_int htimestamp,
    ok_bind] at hok
  obtain ⟨now', hnow, hok⟩ := bind_eq_ok.mp hok
  obtain ⟨entries, hentries, hok⟩ := bind_eq_ok.mp hok
  obtain ⟨_, hloop, ⟨⟩⟩ := bind_eq_ok.mp hok
  obtain ⟨-, rfl⟩ := normalizePeerTimestamp_int_eq_ok.mp hnow
  have hentry : ReplayEntry.Valid ⟨senderNodeId, nonce, messageId, timestamp,
      timestamp + retentionWindowSeconds⟩ :=
    ⟨hsender, hnonce, hmessage, htimestamp, by show 0 ≤ timestamp + _; omega⟩
  have hmem : ∀ e ∈ pruneEntries entries now, e ∈ entries := fun e he => (List.mem_filter.mp he).1
  refine ⟨⟨entries, _, hentries, loadEntries_save files retentionWindowSeconds ?_, ?_, ?_⟩, rfl⟩
  · intro e he
    rcases List.mem_append.mp (mem_sortReplayEntries.mp he) with he | he
    · exact loadEntries_valid hentries e (hmem e he)
    · rw [List.mem_singleton.mp he]
      exact hentry
  · exact mem_sortReplayEntries.mpr (mem_sortReplayEntries.mpr (by simp))
  · intro e he hexpires
    have hkept : e ∈ pruneEntries entries now :=
      List.mem_filter.mpr ⟨he, decide_eq_true hexpires⟩
    obtain ⟨_, hid, hpair⟩ := bind_eq_ok.mp (forM_eq_ok.mp hloop e hkept)
    refine ⟨mem_sortReplayEntries.mpr (mem_sortReplayEntries.mpr ?_), require_eq_ok.mp hid,
      require_eq_ok.mp hpair⟩
    exact List.mem_append_left _ hkept

end Entries

end PeerMessage

end ZoidbergChain
