import ZoidbergChain.PeerMessage.Replay

/-!
# Verified peer requests (protocol_v1_peer_message.py:735–886)

`verify_protocol_v1_peer_request` in front of a replay store, over whole runs of a node: requests
in any order, with restarts in between.

- `authenticate` is everything up to the replay store, `verifyPeerRequest` the whole call.
- `accepted_spec`: what an accepted request was checked for, and what it left in the store.
- `kept_after`: an entry stays in the store until a request comes after its expiry.
- `replayProtection`: no message id is accepted twice, and no nonce before its entry expires.
-/

namespace ZoidbergChain

open Python

namespace PeerMessage

/-! ## One request -/

/-- `PROTOCOL_V1_REQUIRED_PEER_HEADERS`. -/
def requiredPeerHeaders : List String :=
  ["X-ZOID-Peer-Message-Version", "X-ZOID-Protocol-Version", "X-ZOID-Network-Id",
    "X-ZOID-Message-Type", "X-ZOID-Node-Id", "X-ZOID-Timestamp", "X-ZOID-Nonce",
    "X-ZOID-Message-Id", "X-ZOID-Signature"]

/-- A call of `verify_protocol_v1_peer_request`, and what the clock shows at it. -/
structure Call where
  method : Value
  path : Value
  headers : Dict
  payload : Value
  expectedNetworkId : Value
  secret : String
  timestampWindowSeconds : Value
  now : Option Value
  /-- `int(time.time())`. -/
  clock : Int

/-- `ProtocolV1PeerAuthContext`. -/
structure AuthContext extends MessageFields where
  messageId : String
  signature : String
  envelope : Value
  payload : Value

/-- The window, as it is checked. -/
def windowSeconds (value : Value) : Py Int := do
  let invalid := PyError.value "Peer timestamp window is invalid."
  let window ← match value with
    | .bool _ => .error invalid
    | value =>
      match value.toInt with
      | .ok n => .ok n
      | .error e => if e.isValueError ∨ e.exc = .typeError then .error invalid else .error e
  require (0 ≤ window) invalid
  return window

section Verify

variable (h : Host) (upper : String → String) (hmacHex : ByteArray → ByteArray → String)

/-- `now_value`. -/
def Call.receiverTime (c : Call) : Py Int :=
  match c.now with
  | none => .ok c.clock
  | some now => normalizePeerTimestamp h.toRuntime now

/-- Everything before the replay store: the context, still without its payload, and the time. -/
def authenticate (c : Call) : Py (AuthContext × Int) := do
  require (∃ name ∈ requiredPeerHeaders, ¬(c.headers.get name).isNone = true)
    (.value "Missing Protocol v1 peer headers.")
  let missing := requiredPeerHeaders.filter fun name =>
    (c.headers.get name).isNone || decide (c.headers.get name = .str "")
  require (missing = [])
    (.value ("Missing Protocol v1 peer headers: " ++ String.intercalate ", " missing ++ "."))
  let peerMessageVersion ←
    normalizePeerMessageVersion h.toRuntime (c.headers.get "X-ZOID-Peer-Message-Version")
  let protocolVersion ←
    normalizeProtocolVersion h.toRuntime (c.headers.get "X-ZOID-Protocol-Version")
  let networkId ← normalizeNetworkId h (c.headers.get "X-ZOID-Network-Id")
  let messageType ← normalizePeerMessageType h.toRuntime (c.headers.get "X-ZOID-Message-Type")
  let senderNodeId ← normalizePeerSenderNodeId (c.headers.get "X-ZOID-Node-Id")
  let timestamp ← normalizePeerTimestamp h.toRuntime (c.headers.get "X-ZOID-Timestamp")
  let nonce ← normalizePeerNonce (c.headers.get "X-ZOID-Nonce")
  let messageId ← normalizePeerMessageId (c.headers.get "X-ZOID-Message-Id")
  let signature := h.lower (strip ((c.headers.get "X-ZOID-Signature").text h.toRuntime))
  require (IsHex64 signature)
    (.value "Peer signature must be a 64-character lowercase hexadecimal string.")
  let expectedMessageType ← inferPeerMessageType h.toRuntime upper c.method c.path
  require (messageType = expectedMessageType)
    (.value "Peer message type does not match the requested peer route.")
  let expectedNetworkId ← normalizeNetworkId h c.expectedNetworkId
  require (networkId = expectedNetworkId) (.value "Peer message belongs to a different network.")
  let window ← windowSeconds c.timestampWindowSeconds
  let now ← c.receiverTime h
  require (now - window ≤ timestamp ∧ timestamp ≤ now + window)
    (.value "Peer message timestamp outside the allowed window.")
  let fields : MessageFields :=
    { networkId, messageType, senderNodeId, timestamp, nonce, peerMessageVersion, protocolVersion }
  let envelope ← buildPeerEnvelope h c.payload fields
  let expectedMessageId ← calculatePeerMessageId h c.payload fields
  require (messageId = expectedMessageId) (.value "Invalid peer message ID.")
  let expectedSignature ← signPeerMessage h hmacHex c.payload fields c.secret
  require (signature = expectedSignature) (.value "Invalid peer signature.")
  return ({ fields with messageId, signature, envelope, payload := c.payload }, now)

/-- `verify_protocol_v1_peer_request`, with the replay store of a retention window. -/
def verifyPeerRequest (retentionWindowSeconds : Int) (files : ReplayFiles) (c : Call) :
    ReplayFiles × Py AuthContext :=
  match authenticate h upper hmacHex c with
  | .error e => (files, .error e)
  | .ok (ctx, now) =>
    match rejectReplayOrRecord h.toRuntime retentionWindowSeconds files ctx.senderNodeId ctx.nonce
      ctx.messageId ctx.timestamp now with
    | .error e => (files, .error e)
    | .ok files' => (files', do return { ctx with payload := ← canonicalPeerPayload c.payload })

/-! ## Runs -/

/-- The node: its store object, once it has one, and the files. -/
structure Node where
  store : Option Nat := none
  files : ReplayFiles := {}

/-- `get_protocol_v1_peer_replay_store`: the retention window of the store. -/
def Node.replayStore (n : Node) (retentionWindowSeconds : Nat) : Nat × Node :=
  match n.store with
  | some window =>
    if window = retentionWindowSeconds then (window, n)
    else (retentionWindowSeconds, { n with store := some retentionWindowSeconds })
  | none => (retentionWindowSeconds, { n with store := some retentionWindowSeconds })

inductive Event where
  | request (c : Call)
  /-- The process ends, and another one starts. -/
  | restart

/-- The answer to a request. -/
def answer (retentionWindowSeconds : Nat) (n : Node) (c : Call) : Py AuthContext :=
  let (window, n) := n.replayStore retentionWindowSeconds
  (verifyPeerRequest h upper hmacHex window n.files c).2

/-- One event. -/
def step (retentionWindowSeconds : Nat) (n : Node) : Event → Node
  | .request c =>
    let (window, n) := n.replayStore retentionWindowSeconds
    { n with files := (verifyPeerRequest h upper hmacHex window n.files c).1 }
  | .restart => { n with store := none }

/-- The node after some events. -/
def after (retentionWindowSeconds : Nat) (n : Node) (events : List Event) : Node :=
  events.foldl (step h upper hmacHex retentionWindowSeconds) n

/-- A request of the run that was accepted: the events before and after it, and its context. -/
structure AcceptedAt (retentionWindowSeconds : Nat) (n : Node) (events front : List Event)
    (c : Call) (back : List Event) (ctx : AuthContext) : Prop where
  split : events = front ++ .request c :: back
  accepted : answer h upper hmacHex retentionWindowSeconds
    (after h upper hmacHex retentionWindowSeconds n front) c = .ok ctx

/-- Two requests in order. -/
def Event.NotEarlier (a b : Event) : Prop :=
  ∀ c c', a = .request c → b = .request c' → ∀ t t', c.receiverTime h = .ok t →
    c'.receiverTime h = .ok t' → t ≤ t'

/-- The run of a node whose clock does not go back, with windows that the store covers. -/
structure Schedule (retentionWindowSeconds : Nat) (events : List Event) : Prop where
  clocks : events.Pairwise (Event.NotEarlier h)
  windows : ∀ c, .request c ∈ events → ∀ w, windowSeconds c.timestampWindowSeconds = .ok w →
    w ≤ retentionWindowSeconds

/-- No two messages that the run accepts have different texts with one SHA-256. -/
def CollisionFree (retentionWindowSeconds : Nat) (n : Node) (events : List Event) : Prop :=
  ∀ front c back ctx front' c' back' ctx',
    AcceptedAt h upper hmacHex retentionWindowSeconds n events front c back ctx →
    AcceptedAt h upper hmacHex retentionWindowSeconds n events front' c' back' ctx' →
    ∀ raw raw', canonicalJsonBytes ctx.envelope = .ok raw →
      canonicalJsonBytes ctx'.envelope = .ok raw' → h.sha256Hex raw = h.sha256Hex raw' → raw = raw'

end Verify

section Lemmas

variable {h : Host} {upper : String → String} {hmacHex : ByteArray → ByteArray → String}

/-! ## An accepted request -/

/-- What a request was checked for before the store is asked. -/
structure Authentic (h : Host) (c : Call) (ctx : AuthContext) (now : Int) : Prop where
  time : c.receiverTime h = .ok now
  window : ∃ w, windowSeconds c.timestampWindowSeconds = .ok w ∧ now - w ≤ ctx.timestamp
  timestamp : 0 ≤ ctx.timestamp
  sender : normalizePeerSenderNodeId (.str ctx.senderNodeId) = .ok ctx.senderNodeId
  nonce : normalizePeerNonce (.str ctx.nonce) = .ok ctx.nonce
  message : normalizePeerMessageId (.str ctx.messageId) = .ok ctx.messageId
  envelope : buildPeerEnvelope h c.payload ctx.toMessageFields = .ok ctx.envelope
  identity : ∃ raw, canonicalJsonBytes ctx.envelope = .ok raw ∧ ctx.messageId = h.sha256Hex raw

theorem authenticate_spec {c : Call} {ctx : AuthContext} {now : Int}
    (hok : authenticate h upper hmacHex c = .ok (ctx, now)) : Authentic h c ctx now := by
  unfold authenticate at hok
  obtain ⟨_, -, hok⟩ := bind_eq_ok.mp hok
  obtain ⟨_, -, hok⟩ := bind_eq_ok.mp hok
  obtain ⟨version, -, hok⟩ := bind_eq_ok.mp hok
  obtain ⟨protocol, -, hok⟩ := bind_eq_ok.mp hok
  obtain ⟨networkId, -, hok⟩ := bind_eq_ok.mp hok
  obtain ⟨messageType, -, hok⟩ := bind_eq_ok.mp hok
  obtain ⟨sender, hsender, hok⟩ := bind_eq_ok.mp hok
  obtain ⟨timestamp, htimestamp, hok⟩ := bind_eq_ok.mp hok
  obtain ⟨nonce, hnonce, hok⟩ := bind_eq_ok.mp hok
  obtain ⟨message, hmessage, hok⟩ := bind_eq_ok.mp hok
  obtain ⟨_, -, hok⟩ := bind_eq_ok.mp hok
  obtain ⟨expectedType, -, hok⟩ := bind_eq_ok.mp hok
  obtain ⟨_, -, hok⟩ := bind_eq_ok.mp hok
  obtain ⟨expectedNetwork, -, hok⟩ := bind_eq_ok.mp hok
  obtain ⟨_, -, hok⟩ := bind_eq_ok.mp hok
  obtain ⟨window, hwindow, hok⟩ := bind_eq_ok.mp hok
  obtain ⟨time, htime, hok⟩ := bind_eq_ok.mp hok
  obtain ⟨_, hrange, hok⟩ := bind_eq_ok.mp hok
  obtain ⟨envelope, henvelope, hok⟩ := bind_eq_ok.mp hok
  obtain ⟨expected, hexpected, hok⟩ := bind_eq_ok.mp hok
  obtain ⟨_, hidentity, hok⟩ := bind_eq_ok.mp hok
  obtain ⟨_, -, hok⟩ := bind_eq_ok.mp hok
  obtain ⟨_, -, ⟨⟩⟩ := bind_eq_ok.mp hok
  obtain ⟨raw, hraw, hhash⟩ := bind_eq_ok.mp hexpected
  obtain ⟨envelope', henvelope', hraw⟩ := bind_eq_ok.mp hraw
  obtain rfl := Except.ok.inj (henvelope.symm.trans henvelope')
  exact ⟨htime, ⟨window, hwindow, (require_eq_ok.mp hrange).1⟩, nonneg_of_timestamp htimestamp,
    normalizePeerSenderNodeId_idem hsender, normalizePeerNonce_idem hnonce,
    normalizePeerMessageId_idem hmessage, henvelope,
    ⟨raw, hraw, (require_eq_ok.mp hidentity).trans (pure_eq_ok.mp hhash).symm⟩⟩

/-- An accepted request is authentic, and the store has recorded it. -/
theorem accepted_spec {retention : Nat} {files : ReplayFiles} {c : Call} {ctx : AuthContext}
    (hok : (verifyPeerRequest h upper hmacHex retention files c).2 = .ok ctx) :
    ∃ now, Authentic h c ctx now ∧
      Records h retention files (verifyPeerRequest h upper hmacHex retention files c).1
        ⟨ctx.senderNodeId, ctx.nonce, ctx.messageId, ctx.timestamp, ctx.timestamp + retention⟩
        now := by
  unfold verifyPeerRequest at hok ⊢
  cases hauth : authenticate h upper hmacHex c with
  | error e =>
    rw [hauth] at hok
    cases hok
  | ok checked =>
    obtain ⟨ctx', now⟩ := checked
    rw [hauth] at hok
    dsimp only at hok ⊢
    have hauthentic := authenticate_spec hauth
    cases hrecord : rejectReplayOrRecord h.toRuntime retention files ctx'.senderNodeId ctx'.nonce
        ctx'.messageId ctx'.timestamp now with
    | error e =>
      rw [hrecord] at hok
      cases hok
    | ok files' =>
      rw [hrecord] at hok
      dsimp only at hok
      obtain ⟨payload, -, ⟨⟩⟩ := bind_eq_ok.mp hok
      refine ⟨now, ⟨hauthentic.time, hauthentic.window, hauthentic.timestamp, hauthentic.sender,
        hauthentic.nonce, hauthentic.message, hauthentic.envelope, hauthentic.identity⟩, ?_⟩
      exact rejectReplayOrRecord_spec (Int.natCast_nonneg _) hauthentic.sender hauthentic.nonce
        hauthentic.message hauthentic.timestamp hrecord

/-- The envelope is the one of the call. -/
theorem envelope_of_accepted {retention : Nat} {files : ReplayFiles} {c : Call} {ctx : AuthContext}
    (hok : (verifyPeerRequest h upper hmacHex retention files c).2 = .ok ctx) :
    ∃ checked, authenticate h upper hmacHex c = .ok checked ∧
      ctx.messageId = checked.1.messageId ∧ ctx.envelope = checked.1.envelope := by
  unfold verifyPeerRequest at hok
  split at hok
  · cases hok
  · next ctx' now hauth =>
    split at hok
    · cases hok
    · obtain ⟨payload, -, ⟨⟩⟩ := bind_eq_ok.mp hok
      exact ⟨_, hauth, rfl, rfl⟩

/-- The payload of an envelope that could be built is canonical. -/
theorem canonicalPeerPayload_of_envelope {payload envelope : Value} {fields : MessageFields}
    (henvelope : buildPeerEnvelope h payload fields = .ok envelope) :
    ∃ data, canonicalPeerPayload payload = .ok data := by
  obtain ⟨_, -, henvelope⟩ := bind_eq_ok.mp henvelope
  obtain ⟨_, -, henvelope⟩ := bind_eq_ok.mp henvelope
  obtain ⟨_, -, henvelope⟩ := bind_eq_ok.mp henvelope
  obtain ⟨data, hdata, -⟩ := bind_eq_ok.mp henvelope
  exact ⟨data, hdata⟩

/-- A rejected request leaves the files alone: nothing fails after the store has recorded it. -/
theorem files_of_rejected {retention : Nat} {files : ReplayFiles} {c : Call} {e : PyError}
    (herror : (verifyPeerRequest h upper hmacHex retention files c).2 = .error e) :
    (verifyPeerRequest h upper hmacHex retention files c).1 = files := by
  unfold verifyPeerRequest at herror ⊢
  cases hauth : authenticate h upper hmacHex c with
  | error e => rfl
  | ok checked =>
    obtain ⟨ctx, now⟩ := checked
    rw [hauth] at herror
    dsimp only at herror ⊢
    cases hrecord : rejectReplayOrRecord h.toRuntime retention files ctx.senderNodeId ctx.nonce
        ctx.messageId ctx.timestamp now with
    | error e => rfl
    | ok files' =>
      obtain ⟨data, hdata⟩ := canonicalPeerPayload_of_envelope (authenticate_spec hauth).envelope
      rw [hrecord, hdata] at herror
      cases herror

/-! ## Runs -/

variable {retention : Nat} {n : Node}

theorem replayStore_fst : (n.replayStore retention).1 = retention := by
  unfold Node.replayStore
  split
  · split_ifs with hsame
    · exact hsame
    · rfl
  · rfl

theorem replayStore_files : (n.replayStore retention).2.files = n.files := by
  unfold Node.replayStore
  split
  · split_ifs <;> rfl
  · rfl

theorem answer_eq (c : Call) : answer h upper hmacHex retention n c =
    (verifyPeerRequest h upper hmacHex retention n.files c).2 := by
  show (verifyPeerRequest h upper hmacHex (n.replayStore retention).1
    (n.replayStore retention).2.files c).2 = _
  rw [replayStore_fst, replayStore_files]

theorem files_step_request (c : Call) :
    (step h upper hmacHex retention n (.request c)).files =
      (verifyPeerRequest h upper hmacHex retention n.files c).1 := by
  show (verifyPeerRequest h upper hmacHex (n.replayStore retention).1
    (n.replayStore retention).2.files c).1 = _
  rw [replayStore_fst, replayStore_files]

theorem after_append (front back : List Event) :
    after h upper hmacHex retention n (front ++ back) =
      after h upper hmacHex retention (after h upper hmacHex retention n front) back :=
  List.foldl_append

/-- The store of the node holds the entry. -/
def Holds (h : Host) (n : Node) (e : ReplayEntry) : Prop :=
  ∃ entries, loadEntries h.toRuntime n.files = .ok entries ∧ e ∈ entries

/-- One event keeps an entry that has not expired. -/
theorem holds_step {e : ReplayEntry} (he : Holds h n e) {event : Event}
    (htime : ∀ c, event = .request c → ∀ t, c.receiverTime h = .ok t → t ≤ e.expiresAt) :
    Holds h (step h upper hmacHex retention n event) e := by
  cases event with
  | restart => exact he
  | request c =>
    obtain ⟨entries, hload, hmem⟩ := he
    rw [Holds, files_step_request]
    cases hanswer : (verifyPeerRequest h upper hmacHex retention n.files c).2 with
    | error err =>
      rw [files_of_rejected hanswer]
      exact ⟨entries, hload, hmem⟩
    | ok ctx =>
      obtain ⟨now, hauthentic, ⟨_, entries', hload', hload'', -, hkept⟩, -⟩ :=
        accepted_spec hanswer
      obtain rfl := Except.ok.inj (hload'.symm.trans hload)
      exact ⟨entries', hload'', (hkept e hmem (htime c rfl now hauthentic.time)).1⟩

/-- A run keeps an entry until its expiry. -/
theorem holds_after {e : ReplayEntry} (he : Holds h n e) {events : List Event}
    (htime : ∀ c, .request c ∈ events → ∀ t, c.receiverTime h = .ok t → t ≤ e.expiresAt) :
    Holds h (after h upper hmacHex retention n events) e := by
  induction events generalizing n with
  | nil => exact he
  | cons event events ih =>
    refine ih (holds_step he fun c hc => htime c (by simp [hc])) fun c hc => ?_
    exact htime c (List.mem_cons_of_mem _ hc)

section Protection

variable {events front mid back : List Event} {c c' : Call} {ctx ctx' : AuthContext}

/-- The entry that an accepted request leaves in the store. -/
def entryOf (retention : Nat) (ctx : AuthContext) : ReplayEntry where
  senderNodeId := ctx.senderNodeId
  nonce := ctx.nonce
  messageId := ctx.messageId
  timestamp := ctx.timestamp
  expiresAt := ctx.timestamp + retention

theorem holds_of_accepted
    (haccepted : AcceptedAt h upper hmacHex retention n events front c back ctx) :
    Holds h (after h upper hmacHex retention n (front ++ [.request c]))
      (entryOf retention ctx) := by
  obtain ⟨now, -, ⟨_, entries, -, hload, hmem, -⟩, -⟩ :=
    accepted_spec ((answer_eq c).symm.trans haccepted.accepted)
  rw [after_append]
  refine ⟨entries, ?_, hmem⟩
  show loadEntries _ (step h upper hmacHex retention _ (.request c)).files = _
  rw [files_step_request]
  exact hload

/-- While the entry of an accepted request has not expired, only others are accepted. -/
theorem distinct_of_unexpired (hclocks : events.Pairwise (Event.NotEarlier h))
    (hfirst : AcceptedAt h upper hmacHex retention n events front c
      (mid ++ .request c' :: back) ctx)
    (hlast : AcceptedAt h upper hmacHex retention n events (front ++ .request c :: mid) c'
      back ctx')
    {now : Int} (hnow : c'.receiverTime h = .ok now)
    (hunexpired : now ≤ ctx.timestamp + retention) :
    ctx.messageId ≠ ctx'.messageId ∧
      ¬(ctx.senderNodeId = ctx'.senderNodeId ∧ ctx.nonce = ctx'.nonce) := by
  have hmid : ∀ c'', .request c'' ∈ mid → ∀ t, c''.receiverTime h = .ok t →
      t ≤ (entryOf retention ctx).expiresAt := by
    intro c'' hc'' t ht
    rw [hfirst.split] at hclocks
    have hrest := (List.pairwise_cons.mp (List.pairwise_append.mp hclocks).2.1).2
    have hle := (List.pairwise_append.mp hrest).2.2 _ hc'' _ (List.mem_cons_self ..)
    exact (hle c'' c' rfl rfl t now ht hnow).trans hunexpired
  have hholds : Holds h (after h upper hmacHex retention _ mid) (entryOf retention ctx) :=
    holds_after (holds_of_accepted hfirst) hmid
  rw [← after_append, List.append_assoc] at hholds
  obtain ⟨entries, hload, hmem⟩ := hholds
  obtain ⟨now', hauthentic, ⟨_, _, hload', -, -, hkept⟩, -⟩ :=
    accepted_spec ((answer_eq c').symm.trans hlast.accepted)
  obtain rfl := Except.ok.inj (hload'.symm.trans hload)
  obtain rfl := Except.ok.inj (hauthentic.time.symm.trans hnow)
  exact (hkept _ hmem hunexpired).2

/-- No message id is accepted twice, no nonce of a sender before its entry expires, and a request
that is not accepted leaves the replay state as it is. -/
theorem replayProtection (hschedule : Schedule h retention events)
    (hfree : CollisionFree h upper hmacHex retention n events) :
    (∀ front c mid c' back ctx ctx',
      AcceptedAt h upper hmacHex retention n events front c (mid ++ .request c' :: back) ctx →
      AcceptedAt h upper hmacHex retention n events (front ++ .request c :: mid) c' back ctx' →
      ctx.messageId ≠ ctx'.messageId ∧
        (ctx.senderNodeId = ctx'.senderNodeId → ctx.nonce = ctx'.nonce →
          ∀ now, c'.receiverTime h = .ok now → ctx.timestamp + retention < now)) ∧
    ∀ front c back e, events = front ++ .request c :: back →
      answer h upper hmacHex retention (after h upper hmacHex retention n front) c = .error e →
      (after h upper hmacHex retention n (front ++ [.request c])).files =
        (after h upper hmacHex retention n front).files := by
  refine ⟨fun front c mid c' back ctx ctx' hfirst hlast => ⟨fun heq => ?_, ?_⟩, ?_⟩
  · obtain ⟨_, hauthentic, -⟩ :=
      accepted_spec ((answer_eq c).symm.trans hfirst.accepted)
    obtain ⟨now, hauthentic', -⟩ :=
      accepted_spec ((answer_eq c').symm.trans hlast.accepted)
    -- the same message has the same timestamp, which is still in the window of the store
    obtain ⟨raw, hraw, hid⟩ := hauthentic.identity
    obtain ⟨raw', hraw', hid'⟩ := hauthentic'.identity
    have hsame := hfree _ _ _ _ _ _ _ _ hfirst hlast raw raw' hraw hraw'
      (hid.symm.trans (heq.trans hid'))
    have htimestamp : ctx.timestamp = ctx'.timestamp :=
      timestamp_eq_of_bytes hauthentic.timestamp hauthentic'.timestamp
        (bind_eq_ok.mpr ⟨_, hauthentic.envelope, hraw⟩)
        (bind_eq_ok.mpr ⟨_, hauthentic'.envelope, hsame ▸ hraw'⟩)
    obtain ⟨w, hw, hlow⟩ := hauthentic'.window
    have hle := hschedule.windows c' (by rw [hlast.split]; simp) w hw
    exact (distinct_of_unexpired hschedule.clocks hfirst hlast hauthentic'.time (by omega)).1 heq
  · intro hsender hnonce now hnow
    by_contra hunexpired
    exact (distinct_of_unexpired hschedule.clocks hfirst hlast hnow (by omega)).2
      ⟨hsender, hnonce⟩
  · intro front c back e _ herror
    rw [after_append]
    show (step h upper hmacHex retention _ (.request c)).files = _
    rw [files_step_request]
    exact files_of_rejected ((answer_eq c).symm.trans herror)

end Protection

end Lemmas

/-! ## A replay after a restart -/

/-- A host with the SHA-256 of the sample message. -/
def sampleHost : Host :=
  { Host.sample none none with
    sha256Hex := fun _ => "55b02163cf79b3894258db2b5abb582f5ffbe8cb1b18d1295f1971e3773131ce"
    sha256Hex_isHex64 := fun _ => by decide }

/-- The HMAC of the sample message. -/
def sampleHmac (_ _ : ByteArray) : String :=
  "08b960bbfe0fe00fb0be21f681a024337c09bbd0bd0fa52584ceda3dd043f06c"

/-- A request for the chain summary. -/
def sampleCall : Call where
  method := .str "GET"
  path := .str "/peers/chain/summary"
  headers := [("X-ZOID-Peer-Message-Version", .str "1"), ("X-ZOID-Protocol-Version", .str "1"),
    ("X-ZOID-Network-Id", .str "zoidberg-public-testnet-v1"),
    ("X-ZOID-Message-Type", .str "chain-summary"), ("X-ZOID-Node-Id", .str "node-a"),
    ("X-ZOID-Timestamp", .str "1000"), ("X-ZOID-Nonce", .str "n1"),
    ("X-ZOID-Message-Id",
      .str "55b02163cf79b3894258db2b5abb582f5ffbe8cb1b18d1295f1971e3773131ce"),
    ("X-ZOID-Signature",
      .str "08b960bbfe0fe00fb0be21f681a024337c09bbd0bd0fa52584ceda3dd043f06c")]
  payload := .dict []
  expectedNetworkId := .str "zoidberg-public-testnet-v1"
  secret := "secret"
  timestampWindowSeconds := .int 300
  now := none
  clock := 1100

def sampleEvents : List Event := [.request sampleCall, .restart, .request sampleCall]

theorem eq_sampleCall {c : Call} (hc : .request c ∈ sampleEvents) : c = sampleCall := by
  simpa [sampleEvents] using hc

theorem schedule_sample : Schedule sampleHost 300 sampleEvents where
  clocks := by
    refine List.Pairwise.imp_of_mem ?_ (List.pairwise_of_forall (R := fun _ _ => True) (by simp))
    rintro a b ha hb - c c' rfl rfl t t' ht ht'
    rw [eq_sampleCall ha] at ht
    rw [eq_sampleCall hb] at ht'
    exact (Except.ok.inj (ht.symm.trans ht')).le
  windows c hc w hw := by
    rw [eq_sampleCall hc] at hw
    exact (Except.ok.inj hw).ge

/-- All requests of the run are one. -/
theorem collisionFree_sample :
    CollisionFree sampleHost String.toUpper sampleHmac 300 {} sampleEvents := by
  intro front c back ctx front' c' back' ctx' haccepted haccepted' raw raw' hraw hraw' _
  have hc := eq_sampleCall (c := c) (by rw [haccepted.split]; simp)
  have hc' := eq_sampleCall (c := c') (by rw [haccepted'.split]; simp)
  obtain ⟨checked, hauth, -, henvelope⟩ :=
    envelope_of_accepted ((answer_eq c).symm.trans haccepted.accepted)
  obtain ⟨checked', hauth', -, henvelope'⟩ :=
    envelope_of_accepted ((answer_eq c').symm.trans haccepted'.accepted)
  rw [hc] at hauth
  rw [hc'] at hauth'
  obtain rfl := Except.ok.inj (hauth.symm.trans hauth')
  rw [henvelope] at hraw
  rw [henvelope'] at hraw'
  exact Except.ok.inj (hraw.symm.trans hraw')

/-- The request is accepted, and not again after a restart. -/
theorem replayProtection_sample :
    (answer sampleHost String.toUpper sampleHmac 300 {} sampleCall).isOk = true ∧
      (answer sampleHost String.toUpper sampleHmac 300
        (after sampleHost String.toUpper sampleHmac 300 {} [.request sampleCall, .restart])
        sampleCall).isOk = false := by
  have hfirst : (answer sampleHost String.toUpper sampleHmac 300 {} sampleCall).isOk = true := by
    decide +kernel
  refine ⟨hfirst, Bool.eq_false_iff.mpr fun hlast => ?_⟩
  obtain ⟨ctx, hctx⟩ := exists_of_isOk hfirst
  obtain ⟨ctx', hctx'⟩ := exists_of_isOk hlast
  refine ((replayProtection schedule_sample collisionFree_sample).1 [] sampleCall [.restart]
    sampleCall [] ctx ctx' ⟨rfl, hctx⟩ ⟨rfl, hctx'⟩).1 ?_
  obtain ⟨checked, hauth, hid, -⟩ := envelope_of_accepted ((answer_eq _).symm.trans hctx)
  obtain ⟨checked', hauth', hid', -⟩ := envelope_of_accepted ((answer_eq _).symm.trans hctx')
  rw [hid, hid', Except.ok.inj (hauth.symm.trans hauth')]

end PeerMessage

end ZoidbergChain
