import ZoidbergChain.PeerMessage.Envelope
import ZoidbergChain.Finality.Service
import ZoidbergChain.Scan.Collect
import ZoidbergChain.Scan.Firsts

/-!
# Signed observations (community_report.py, post_mint_dispute.py)

What reports before the mint and disputes after it have in common: a payload that a reviewer has
signed, and the reference at which the reviewer was qualified.

- `verifySigned` is the body of `verify_report` and `verify_dispute`.
- `observe` reads what the tallies depend on; `inKeyOrder` is the order of the stored lists.
- `countedOf` chooses one record for each wallet.
- `observed_inj`: the canonical text of a verified record determines all that is read from it.
-/

namespace ZoidbergChain

open Python PeerMessage

namespace Moderation

/-! ## Constants -/

def networkId : String := "zoidberg-public-testnet-v1"
def reviewerPolicyVersion : Int := 1
def reputationRuleVersion : Int := 2
def establishedReviewer : String := "ESTABLISHED_REVIEWER"

/-- `ELIGIBLE_STATUSES`. -/
def eligibleStatuses : List String := ["PROBATIONARY_REVIEWER", establishedReviewer]

/-! ## Records -/

/-- What a node decides by. -/
structure Node extends Host where
  /-- `datetime.fromisoformat`: nothing when it raises, no instant without an offset. -/
  instantOf : String → Option (Option Int)
  /-- `get_report_reviewer_status_at_reference` at an integer height. -/
  statusAt : String → Int → String → Py String

/-- Where a reviewer was qualified, and as what. -/
structure Reference where
  height : Value
  blockHash : String
  status : Value
  deriving DecidableEq

def Reference.toValue (r : Reference) : Value :=
  .dict [("height", r.height), ("block_hash", .str r.blockHash), ("status", r.status)]

/-- A record that `canonical_report_record` or `canonical_dispute_record` has returned. -/
structure SignedRecord where
  payload : Value
  message : Value
  signature : String
  identity : Value
  reference : Reference

def SignedRecord.toValue (r : SignedRecord) : Value :=
  .dict [("payload", r.payload), ("message", r.message), ("signature", .str r.signature),
    ("identity", r.identity), ("reviewer_reference", r.reference.toValue)]

/-- `s.removeprefix("0x")`. -/
def withoutPrefix (s : String) : String :=
  match s.toList with
  | '0' :: 'x' :: cs => String.ofList cs
  | _ => s

/-- The signature of a text, in lower case and with its prefix. -/
def normalizedSignature (h : Host) (label text : String) : Py String := do
  let normalized := withoutPrefix (h.lower text)
  require (normalized.toList.length = 130 ∧ normalized.toList.all isLowerHex)
    (.value s!"{label} signature must be 65-byte hex.")
  return "0x" ++ normalized

/-- `except (KeyError, TypeError)`. -/
def incompleteAs {α : Type} (message : String) : Py α → Py α
  | .error e => .error
    (if e.exc = .keyError ∨ e.exc = .typeError then .value message else e)
  | .ok a => .ok a

/-- The reviewer reference of a record. -/
def readReference (h : Host) (reference : Value) : Py Reference := do
  return {
    height := ← reference.item "height"
    blockHash := h.lower ((← reference.item "block_hash").text h.toRuntime)
    status := ← reference.item "status" }

/-- `report_identity` and `dispute_identity`. -/
def signedIdentity (h : Host) (label : String) (payload : Dict) (signature : String) :
    Py String := do
  canonicalHash h (.dict [("payload", .dict payload),
    ("signature", .str (← normalizedSignature h label signature))])

/-! ## Verification -/

/-- What is read of a payload before it is written again. -/
structure PayloadFields where
  walletAddress : Value
  reason : Value
  nonce : Value
  issuedAt : Value
  expiresAt : Value
  networkId : Value

def readFields (payload : Value) : Py PayloadFields := do
  return {
    walletAddress := ← payload.item "wallet_address"
    reason := ← payload.item "reason"
    nonce := ← payload.item "nonce"
    issuedAt := ← payload.item "issued_at"
    expiresAt := ← payload.item "expires_at"
    networkId := ← payload.item "network_id" }

/-- A text that is not blank. -/
def filledText : Value → Option String
  | .str s => if strip s = "" then none else some s
  | _ => none

/-- The nonce and the times of a challenge. -/
def checkChallenge (n : Node) (label : String) (fields : PayloadFields) : Py Unit := do
  let missing := PyError.value s!"{label} challenge fields are required."
  let lowered := label.toLower
  let malformed := PyError.value s!"Invalid {lowered} challenge timestamps."
  let _ ← orRaise (filledText fields.nonce) missing
  let issuedAt ← orRaise (filledText fields.issuedAt) missing
  let expiresAt ← orRaise (filledText fields.expiresAt) missing
  let issued ← orRaise (n.instantOf issuedAt).join malformed
  let expires ← orRaise (n.instantOf expiresAt).join malformed
  require (issued < expires) malformed

/-- `except (KeyError, TypeError, ValueError): return False`. -/
def falseWhenRaised : Py Bool → Py Bool
  | .error e =>
    if e.exc = .keyError ∨ e.exc = .typeError ∨ e.isValueError = true then .ok false else .error e
  | .ok b => .ok b

/-- `get_report_reviewer_status_at_reference`. -/
def statusAtReference (n : Node) (wallet : String) (height : Value) (blockHash : String) :
    Py String :=
  match height with
  | .int k => n.statusAt wallet k blockHash
  | _ => .error (.value "Reviewer reference is not a finalized canonical block.")

/-- `verify_report` and `verify_dispute`, which differ in the payload that they expect. -/
def verifySigned (n : Node) (label : String) (expectedOf : PayloadFields → Py (String × Dict))
    (r : SignedRecord) : Py Bool := falseWhenRaised do
  let fields ← readFields r.payload
  let (wallet, expected) ← expectedOf fields
  let message ← canonicalJsonText (.dict expected)
  if (r.payload.pyEq (.dict expected) && r.message.pyEq (.str message)) = false then return false
  let identity ← signedIdentity n.toHost label expected r.signature
  if r.identity.pyEq (.str identity) = false then return false
  let signer ← WalletSignatures.recoverSignedWalletAddress n.toHost message r.signature
  if signer ≠ wallet then return false
  if (eligibleStatuses.any fun status => r.reference.status.pyEq (.str status)) = false then
    return false
  let status ← statusAtReference n wallet r.reference.height r.reference.blockHash
  return r.reference.status.pyEq (.str status)

/-! ## Tallies -/

/-- What the tallies read of a record, and its canonical text. -/
structure Observed where
  wallet : String
  identity : String
  digest : String
  reason : String
  reference : Reference
  text : String
  deriving DecidableEq

/-- A text to sort by; texts and other values do not compare. -/
def sortText : Value → Py String
  | .str s => .ok s
  | _ => .error (.type "'<' not supported between instances of 'str' and other types")

def observe (h : Host) (r : SignedRecord) : Py Observed := do
  return {
    wallet := ← sortText (← r.payload.item "wallet_address")
    identity := ← sortText r.identity
    digest := ← canonicalHash h r.toValue
    reason := ← sortText (← r.payload.item "reason")
    reference := r.reference
    text := ← canonicalJsonText r.toValue }

/-- The wallet, the identity and the digest of the record. -/
def Observed.key (o : Observed) : String ×ₗ String ×ₗ String :=
  toLex (o.wallet, toLex (o.identity, o.digest))

/-- The stored order of some records. -/
def inKeyOrder (h : Host) (records : List SignedRecord) : Py (List SignedRecord) := do
  let keyed ← records.mapM fun r => do return (← observe h r, r)
  return (Scan.inOrder (fun e : Observed × SignedRecord => e.1.key) keyed).map Prod.snd

def Observed.isEstablished (o : Observed) : Bool :=
  o.reference.status.pyEq (.str establishedReviewer)

/-- The record that counts for a wallet, and the one that shows that it is established. -/
structure Counted where
  walletAddress : String
  reason : String
  identity : String
  reference : Reference
  establishedEvidence : Option (String × Reference)
  deriving DecidableEq

def Counted.toValue (c : Counted) : Value :=
  .dict [("wallet_address", .str c.walletAddress), ("reason", .str c.reason),
    ("identity", .str c.identity), ("reviewer_reference", c.reference.toValue),
    ("established_evidence", match c.establishedEvidence with
      | some (identity, reference) => .dict [("identity", .str identity),
          ("reviewer_reference", reference.toValue)]
      | none => .null)]

/-- `established_evidence`. -/
def establishedOf (ordered : List Observed) : List Observed :=
  Scan.firsts Observed.wallet (ordered.filter Observed.isEstablished)

/-- The counted records, in the order of their wallets. -/
def countedOf (ordered : List Observed) : List Counted :=
  (Scan.inOrder Observed.wallet (Scan.firsts Observed.wallet ordered)).map fun o => {
    walletAddress := o.wallet
    reason := o.reason
    identity := o.identity
    reference := o.reference
    establishedEvidence := ((establishedOf ordered).find? fun e => e.wallet = o.wallet).map
      fun e => (e.identity, e.reference) }

/-- `canonical_hash` of the digests of all records. -/
def observedDigest (h : Host) (ordered : List Observed) : Py String :=
  canonicalHash h (.list (ordered.map fun o => .str o.digest))

/-- `sum(item["reason"] == reason for item in counted)` for every reason. -/
def reasonCounts (reasons : List String) (counted : List Counted) : List (String × Nat) :=
  reasons.map fun reason => (reason, counted.countP fun c => c.reason = reason)

/-! ## The text of a record -/

section Text

variable {h : Host} {r r' : SignedRecord} {o o' : Observed}

/-- A height and a status as a resolver takes them. -/
structure Reference.Resolved (r : Reference) : Prop where
  height : ∃ k, r.height = .int k
  status : ∃ s, r.status = .str s

theorem eq_str_of_pyEq {v : Value} {s : String} (h : v.pyEq (.str s) = true) : v = .str s := by
  cases v with
  | str t => rw [beq_iff_eq.mp (show (t == s) = true from h)]
  | float f => cases f <;> simp [Value.pyEq, Value.number?] at h
  | _ => simp [Value.pyEq, Value.number?] at h

theorem falseWhenRaised_eq_true {x : Py Bool} :
    falseWhenRaised x = .ok true ↔ x = .ok true := by
  cases x with
  | ok b => rfl
  | error e =>
    show (if _ then Except.ok false else Except.error e) = _ ↔ _
    split <;> simp

theorem resolved_of_verified {n : Node} {label : String}
    {expectedOf : PayloadFields → Py (String × Dict)}
    (hverified : verifySigned n label expectedOf r = .ok true) : r.reference.Resolved := by
  obtain ⟨fields, -, hverified⟩ := bind_eq_ok.mp (falseWhenRaised_eq_true.mp hverified)
  obtain ⟨⟨wallet, expected⟩, -, hverified⟩ := bind_eq_ok.mp hverified
  obtain ⟨message, -, hverified⟩ := bind_eq_ok.mp hverified
  split at hverified
  · cases hverified
  obtain ⟨identity, -, hverified⟩ := bind_eq_ok.mp hverified
  split at hverified
  · cases hverified
  obtain ⟨signer, -, hverified⟩ := bind_eq_ok.mp hverified
  split at hverified
  · cases hverified
  split at hverified
  · cases hverified
  obtain ⟨status, hstatus, hverified⟩ := bind_eq_ok.mp hverified
  refine ⟨?_, status, eq_str_of_pyEq (pure_eq_ok.mp hverified)⟩
  unfold statusAtReference at hstatus
  split at hstatus
  · next k hk => exact ⟨k, hk⟩
  · cases hstatus

theorem sortText_eq_ok {v : Value} {s : String} : sortText v = .ok s ↔ v = .str s := by
  cases v <;> simp [sortText]

/-- What is read of a record. -/
structure Reads (h : Host) (r : SignedRecord) (o : Observed) : Prop where
  payload : ∃ es : Dict, r.payload = .dict es ∧ es.get? "wallet_address" = some (.str o.wallet) ∧
    es.get? "reason" = some (.str o.reason)
  identity : r.identity = .str o.identity
  reference : r.reference = o.reference
  text : canonicalJsonText r.toValue = .ok o.text
  digest : o.digest = h.sha256Hex (encodeUtf8 o.text)

theorem get?_of_item {v : Value} {key : String} {w : Value} (hitem : v.item key = .ok w) :
    ∃ es : Dict, v = .dict es ∧ es.get? key = some w := by
  cases v with
  | dict es =>
    refine ⟨es, rfl, ?_⟩
    show Dict.get? es key = some w
    change Dict.index es key = .ok w at hitem
    unfold Dict.index at hitem
    split at hitem
    · next hget => rw [hget, Except.ok.inj hitem]
    · cases hitem
  | _ => cases hitem

theorem observe_eq_ok : observe h r = .ok o ↔ Reads h r o := by
  constructor
  · intro hread
    obtain ⟨v, hv, hread⟩ := bind_eq_ok.mp hread
    obtain ⟨wallet, hwallet, hread⟩ := bind_eq_ok.mp hread
    obtain ⟨identity, hidentity, hread⟩ := bind_eq_ok.mp hread
    obtain ⟨digest, hdigest, hread⟩ := bind_eq_ok.mp hread
    obtain ⟨u, hu, hread⟩ := bind_eq_ok.mp hread
    obtain ⟨reason, hreason, hread⟩ := bind_eq_ok.mp hread
    obtain ⟨text, htext, ⟨⟩⟩ := bind_eq_ok.mp hread
    rw [sortText_eq_ok] at hwallet hidentity hreason
    obtain ⟨es, hes, hget⟩ := get?_of_item hv
    obtain ⟨es', hes', hget'⟩ := get?_of_item hu
    obtain rfl := Value.dict.inj (hes.symm.trans hes')
    refine ⟨⟨es, hes, by rw [hget, hwallet], by rw [hget', hreason]⟩, hidentity, rfl, htext, ?_⟩
    have hhash : canonicalHash h r.toValue = .ok (h.sha256Hex (encodeUtf8 text)) := by
      rw [canonicalHash, canonicalJsonBytes, htext]
      rfl
    exact Except.ok.inj (hdigest.symm.trans hhash)
  · rintro ⟨⟨es, hes, hwallet, hreason⟩, hidentity, hreference, htext, hdigest⟩
    have hhash : canonicalHash h r.toValue = .ok o.digest := by
      rw [canonicalHash, canonicalJsonBytes, htext, hdigest]
      rfl
    simp only [observe, hes, Value.item, Dict.index, hwallet, hreason, hidentity, hhash, htext,
      hreference, sortText, ok_bind]
    rfl

/-- Texts and integers are their own canonical data. -/
theorem eq_of_expanded {u u' : Value} (hu : u.isExact = true) (hu' : u'.isExact = true)
    (h : ∃ w w', canonicalJsonData u = .ok w ∧ canonicalJsonData u' = .ok w' ∧
      expandBytes w = expandBytes w') : u = u' := by
  have hself : ∀ {v w : Value}, v.isExact = true → canonicalJsonData v = .ok w →
      expandBytes w = v := by
    intro v w hv hw
    cases v <;> cases hv <;> cases hw <;> rfl
  obtain ⟨w, w', hw, hw', heq⟩ := h
  rw [← hself hu hw, ← hself hu' hw', heq]

/-- The text of a record determines what is read of it. -/
theorem observed_inj (ho : observe h r = .ok o) (ho' : observe h r' = .ok o')
    (hr : r.reference.Resolved) (hr' : r'.reference.Resolved) (htext : o.text = o'.text) :
    o = o' := by
  obtain ⟨⟨es, hes, hwallet, hreason⟩, hidentity, href, hrtext, hdigest⟩ := observe_eq_ok.mp ho
  obtain ⟨⟨es', hes', hwallet', hreason'⟩, hidentity', href', hrtext', hdigest'⟩ :=
    observe_eq_ok.mp ho'
  have hraw : canonicalJsonBytes r.toValue = .ok (encodeUtf8 o.text) := by
    rw [canonicalJsonBytes, hrtext]
    rfl
  have hraw' : canonicalJsonBytes r'.toValue = .ok (encodeUtf8 o.text) := by
    rw [canonicalJsonBytes, hrtext', htext]
    rfl
  obtain ⟨a, b, ha, hb, hexpand⟩ := canonicalJsonBytes_inj hraw hraw'
  -- the payloads
  obtain ⟨p, p', hp, hp', hpayload⟩ := expanded_eq_of_data ha hb hexpand "payload" rfl rfl
  rw [hes] at hp
  rw [hes'] at hp'
  have hw := expanded_eq_of_data hp hp' hpayload _ hwallet hwallet'
  have hw := Value.str.inj (eq_of_expanded rfl rfl hw)
  have hq := expanded_eq_of_data hp hp' hpayload _ hreason hreason'
  have hq := Value.str.inj (eq_of_expanded rfl rfl hq)
  -- the identity
  have hi := expanded_eq_of_data ha hb hexpand "identity" rfl rfl
  rw [hidentity, hidentity'] at hi
  have hi := Value.str.inj (eq_of_expanded rfl rfl hi)
  -- the reference
  obtain ⟨q, q', hq₁, hq₂, hreference⟩ := expanded_eq_of_data ha hb hexpand
    "reviewer_reference" rfl rfl
  obtain ⟨k, hk⟩ := hr.height
  obtain ⟨k', hk'⟩ := hr'.height
  obtain ⟨s, hs⟩ := hr.status
  obtain ⟨s', hs'⟩ := hr'.status
  have hheight : r.reference.height = r'.reference.height :=
    eq_of_expanded (by rw [hk]; rfl) (by rw [hk']; rfl)
      (expanded_eq_of_data hq₁ hq₂ hreference "height" rfl rfl)
  have hstatus : r.reference.status = r'.reference.status :=
    eq_of_expanded (by rw [hs]; rfl) (by rw [hs']; rfl)
      (expanded_eq_of_data hq₁ hq₂ hreference "status" rfl rfl)
  have hblock := expanded_eq_of_data hq₁ hq₂ hreference "block_hash" rfl rfl
  have hblock := Value.str.inj (eq_of_expanded rfl rfl hblock)
  have hr₀ : o.reference = o'.reference := by
    rw [← href, ← href']
    cases hrr : r.reference
    cases hrr' : r'.reference
    rw [hrr, hrr'] at hheight hstatus hblock
    cases hheight
    cases hstatus
    cases hblock
    rfl
  have hdigests : o.digest = o'.digest := by rw [hdigest, hdigest', htext]
  cases o
  cases o'
  simp only [Observed.mk.injEq]
  exact ⟨hw, hi, hdigests, hq, hr₀, htext⟩

end Text

/-! ## Canonical data -/

section Canonical

/-- A value that has canonical data. -/
def Canonical (v : Value) : Prop := ∃ w, canonicalJsonData v = .ok w

@[simp] theorem canonical_null : Canonical .null := ⟨_, rfl⟩

@[simp] theorem canonical_str (s : String) : Canonical (.str s) := ⟨_, rfl⟩

@[simp] theorem canonical_int (n : Int) : Canonical (.int n) := ⟨_, rfl⟩

theorem canonical_list {vs : List Value} (h : ∀ v ∈ vs, Canonical v) : Canonical (.list vs) := by
  have hitems : ∃ ws, canonicalJsonItems vs = .ok ws := by
    induction vs with
    | nil => exact ⟨[], rfl⟩
    | cons v vs ih =>
      obtain ⟨w, hw⟩ := h v (List.mem_cons_self ..)
      obtain ⟨ws, hws⟩ := ih fun u hu => h u (List.mem_cons_of_mem _ hu)
      exact ⟨w :: ws, by rw [canonicalJsonItems, hw, hws]; rfl⟩
  obtain ⟨ws, hws⟩ := hitems
  exact ⟨.list ws, by rw [canonicalJsonData, hws]; rfl⟩

theorem canonical_dict {es : Dict} (htag : isBytesTagged es = false)
    (h : ∀ e ∈ es, Canonical e.2) : Canonical (.dict es) := by
  have hentries : ∃ fs, canonicalJsonEntries es = .ok fs := by
    clear htag
    induction es with
    | nil => exact ⟨[], rfl⟩
    | cons e es ih =>
      obtain ⟨k, v⟩ := e
      obtain ⟨w, hw⟩ := h (k, v) (List.mem_cons_self ..)
      obtain ⟨fs, hfs⟩ := ih fun u hu => h u (List.mem_cons_of_mem _ hu)
      exact ⟨(k, w) :: fs, by rw [canonicalJsonEntries, hw, hfs]; rfl⟩
  obtain ⟨fs, hfs⟩ := hentries
  refine ⟨.dict (Json.sortEntries fs), ?_⟩
  rw [canonicalJsonData, require_pos htag, hfs]
  rfl

theorem exists_canonicalHash (h : Host) {v : Value} (hv : Canonical v) :
    ∃ digest, canonicalHash h v = .ok digest := by
  obtain ⟨w, hw⟩ := hv
  exact ⟨_, by rw [canonicalHash, canonicalJsonBytes, canonicalJsonText, hw]; rfl⟩

theorem Reference.canonical {r : Reference} (hr : r.Resolved) : Canonical r.toValue := by
  obtain ⟨k, hk⟩ := hr.height
  obtain ⟨s, hs⟩ := hr.status
  refine canonical_dict rfl ?_
  simp [hk, hs]

end Canonical

/-! ## Stored records -/

section Stored

variable {h : Host} {records : List SignedRecord} {os : List Observed}

/-- Sorting records is sorting what is read of them. -/
theorem inKeyOrder_of_observed (hos : records.mapM (observe h) = .ok os) :
    ∃ records', inKeyOrder h records = .ok records' ∧ records'.Perm records ∧
      records'.mapM (observe h) = .ok (Scan.inOrder Observed.key os) := by
  have hkeyed : ∃ keyed : List (Observed × SignedRecord), keyed.map Prod.fst = os ∧
      keyed.map Prod.snd = records ∧ (∀ e ∈ keyed, observe h e.2 = .ok e.1) ∧
      records.mapM (fun r => do return (← observe h r, r)) = .ok keyed := by
    have hall := forall₂_of_mapM hos
    clear hos
    induction hall with
    | nil => exact ⟨[], rfl, rfl, by simp, rfl⟩
    | @cons r o records os hr _ ih =>
      obtain ⟨keyed, rfl, rfl, hobserve, hmap⟩ := ih
      refine ⟨(o, r) :: keyed, rfl, rfl, List.forall_mem_cons.mpr ⟨hr, hobserve⟩, ?_⟩
      rw [List.mapM_cons, hmap, hr]
      rfl
  obtain ⟨keyed, rfl, rfl, hobserve, hmap⟩ := hkeyed
  have hperm := Scan.perm_inOrder (fun e : Observed × SignedRecord => e.1.key) keyed
  refine ⟨_, by rw [inKeyOrder, hmap]; rfl, hperm.map _, ?_⟩
  have hsorted : (Scan.inOrder (fun e : Observed × SignedRecord => e.1.key) keyed).map Prod.fst =
      Scan.inOrder Observed.key (keyed.map Prod.fst) :=
    List.map_insertionSort _ _ _ _ fun _ _ _ _ => Iff.rfl
  rw [← hsorted]
  refine mapM_of_forall₂ (List.forall₂_map_left_iff.mpr (List.forall₂_map_right_iff.mpr ?_))
  exact List.forall₂_same.mpr fun e he => hobserve e (hperm.mem_iff.mp he)

end Stored

end Moderation

end ZoidbergChain
