import ZoidbergChain.Python.Control
import ZoidbergChain.Python.Datetime
import ZoidbergChain.Python.Text

/-!
# The peer delivery outbox

The table `native_transaction_peer_outbox` of `storage.py` and the five operations on it:
enqueue, claim, acknowledge, fail and refresh. Each one is a single `BEGIN IMMEDIATE`
transaction, so a run of any number of workers is a sequence of calls.

- `updateState` is an `UPDATE` that sets `delivery_state`: it aborts on the transition
  trigger.
- `exec` is one call, `step` its effect on the table: an exception rolls the call back.
- `run` is any sequence of calls, from any table.

The foreign key to the transaction records is declared but not enforced, because no
connection turns `foreign_keys` on. A returned record is the row itself: the decoded message
that the source adds to it is not modelled. Text columns hold text or NULL. A claim takes its
clock reading as the instant that it parses it to, and the token that it draws.
-/

namespace ZoidbergChain

open Python

namespace Outbox

/-! ## Rows -/

/-- `NATIVE_TRANSACTION_OUTBOX_STATES`. -/
inductive DeliveryState where
  | queued
  | inFlight
  | retryWait
  | acknowledged
  | permanentFailure
  deriving DecidableEq

def DeliveryState.ofText? (s : String) : Option DeliveryState :=
  if s = "queued" then some .queued
  else if s = "in_flight" then some .inFlight
  else if s = "retry_wait" then some .retryWait
  else if s = "acknowledged" then some .acknowledged
  else if s = "permanent_failure" then some .permanentFailure
  else none

/-- No operation leaves these states. -/
def DeliveryState.isTerminal : DeliveryState → Bool
  | .acknowledged | .permanentFailure => true
  | _ => false

/-- A number in the column `attempt_count`: SQLite adds in 64 bits and goes over to a
floating-point number when the sum does not fit. -/
inductive Attempts where
  | count (n : Nat) (fits : n < 2 ^ 63)
  | real
  deriving DecidableEq

def Attempts.ofNat (n : Nat) : Attempts := if h : n < 2 ^ 63 then .count n h else .real

def Attempts.plus : Attempts → Nat → Attempts
  | .count n _, k => .ofNat (n + k)
  | .real, _ => .real

structure Row where
  outboxId : String
  messageId : String
  messageType : String
  txId : String
  destinationPeerId : String
  destinationPeerUrl : String
  serializedMessage : String
  deliveryState : DeliveryState
  attemptCount : Attempts
  createdAt : String
  lastAttemptAt : Option String
  nextAttemptAt : Option String
  acknowledgedAt : Option String
  claimToken : Option String
  claimExpiresAt : Option String
  lastErrorCode : Option String
  lastErrorDetail : Option String
  deriving DecidableEq

/-- The columns of `UNIQUE(message_id, destination_peer_id)`. -/
def Row.delivery (r : Row) : String × String := (r.messageId, r.destinationPeerId)

/-! ## Statements -/

/-- The condition of `native_transaction_peer_outbox_state_guard`, negated. -/
def legalTransition (old new : DeliveryState) : Bool :=
  new = old ||
    (old = .queued && (new = .inFlight || new = .permanentFailure)) ||
    (old = .inFlight && (new = .retryWait || new = .acknowledged || new = .permanentFailure)) ||
    (old = .retryWait && (new = .inFlight || new = .permanentFailure))

/-- `RAISE(ABORT, ...)` of the trigger. -/
def illegalTransition : PyError :=
  { exc := .integrityError, message := "illegal native transaction outbox transition" }

/-- `UPDATE ... WHERE`, for columns that no trigger watches. -/
def update (rows : List Row) (p : Row → Bool) (set : Row → Row) : List Row :=
  rows.map fun r => if p r then set r else r

/-- An `UPDATE` that sets `delivery_state`: one illegal row aborts the statement. -/
def updateState (rows : List Row) (p : Row → Bool) (set : Row → Row) : Py (List Row) := do
  require (∀ r ∈ rows, p r → legalTransition r.deliveryState (set r).deliveryState)
    illegalTransition
  .ok (update rows p set)

/-! ## Enqueue -/

/-- A record as a caller passes it: a key may be absent. -/
structure Record where
  outboxId : Option String := none
  messageId : Option String := none
  messageType : Option String := none
  txId : Option String := none
  destinationPeerId : Option String := none
  destinationPeerUrl : Option String := none
  serializedMessage : Option String := none
  deliveryState : Option String := none
  attemptCount : Option Int := none
  createdAt : Option String := none
  lastAttemptAt : Option String := none
  nextAttemptAt : Option String := none
  acknowledgedAt : Option String := none
  claimToken : Option String := none
  claimExpiresAt : Option String := none
  lastErrorCode : Option String := none
  lastErrorDetail : Option String := none
  deriving DecidableEq

/-- A text that is not `in (None, "")`. -/
def filled (s : Option String) : Option String := s.filter fun t => t != ""

def required (s : Option String) : Py String :=
  orRaise (filled s) { exc := .storageCorruptionError,
                       message := "Native transaction outbox record is incomplete." }

/-- `_bounded_error_detail`. -/
def boundedErrorDetail (value : Option String) : Option String :=
  (filled value).map fun s => String.ofList ((strip s).toList.take 512)

/-- One pass of the loop of `_insert_native_transaction_outbox_records`. -/
def insertRecord (rows : List Row) (record : Record) : Py (List Row) := do
  let outboxId ← required record.outboxId
  let messageId ← required record.messageId
  let messageType ← required record.messageType
  let txId ← required record.txId
  let destinationPeerId ← required record.destinationPeerId
  let destinationPeerUrl ← required record.destinationPeerUrl
  let serializedMessage ← required record.serializedMessage
  let deliveryState ← required record.deliveryState
  let createdAt ← required record.createdAt
  match rows.find? fun r => r.delivery = (messageId, destinationPeerId) with
  | some r => do
    require ((r.outboxId, r.messageType, r.txId, r.serializedMessage) =
        (outboxId, messageType, txId, serializedMessage))
      { exc := .storageUniquenessError
        message := "Native transaction outbox identity conflicts with existing delivery work." }
    .ok rows
  | none => do
    let attemptCount := record.attemptCount.getD 0
    require (-2 ^ 63 ≤ attemptCount ∧ attemptCount < 2 ^ 63)
      { exc := .overflowError
        message := "Python int too large to convert to SQLite INTEGER" }
    let deliveryState ← orRaise (DeliveryState.ofText? deliveryState)
      { exc := .integrityError
        message := "CHECK constraint failed: delivery_state" }
    require (0 ≤ attemptCount)
      { exc := .integrityError, message := "CHECK constraint failed: attempt_count >= 0" }
    require (∀ r ∈ rows, r.outboxId ≠ outboxId)
      { exc := .integrityError
        message := "UNIQUE constraint failed: native_transaction_peer_outbox.outbox_id" }
    .ok (rows ++ [{
      outboxId, messageId, messageType, txId, destinationPeerId, destinationPeerUrl,
      serializedMessage, deliveryState, createdAt
      attemptCount := .ofNat attemptCount.toNat
      lastAttemptAt := record.lastAttemptAt
      nextAttemptAt := record.nextAttemptAt
      acknowledgedAt := record.acknowledgedAt
      claimToken := record.claimToken
      claimExpiresAt := record.claimExpiresAt
      lastErrorCode := record.lastErrorCode
      lastErrorDetail := boundedErrorDetail record.lastErrorDetail }])

/-- `enqueue_native_transaction_outbox(records)`. -/
def enqueue (rows : List Row) (records : List Record) : Py (List Row) :=
  records.foldlM insertRecord rows

/-! ## Claim -/

/-- `delivery_state IN ('queued', 'retry_wait')`. -/
def Row.isWaiting (r : Row) : Bool := r.deliveryState = .queued || r.deliveryState = .retryWait

/-- `value <= ?`: false for NULL. -/
def notAfter (value : Option String) (now : String) : Bool :=
  match value with
  | some s => s ≤ now
  | none => false

/-- `delivery_state = 'in_flight' AND claim_expires_at <= ?`. -/
def Row.isExpired (now : String) (r : Row) : Bool :=
  r.deliveryState = .inFlight && notAfter r.claimExpiresAt now

/-- The update of an expired claim. -/
def Row.expire (r : Row) : Row :=
  { r with
    deliveryState := .retryWait
    claimToken := none
    claimExpiresAt := none
    lastErrorCode := some "claim_expired"
    lastErrorDetail := some "Previous delivery claim expired before acknowledgement." }

/-- `next_attempt_at IS NULL OR next_attempt_at <= ?`. -/
def Row.isDue (now : String) (r : Row) : Bool :=
  r.nextAttemptAt = none || notAfter r.nextAttemptAt now

/-- `str(tx_id).strip().lower()`. -/
def normalizeTxId (txId : String) : String := (strip txId).toLower

/-- The filters of a claim; one that is `None` or empty is left out. -/
def Row.matchesFilter (destinationPeerId txId : Option String) (r : Row) : Bool :=
  (match filled destinationPeerId with
    | some d => r.destinationPeerId = d
    | none => true) &&
  (match filled txId with
    | some t => r.txId = normalizeTxId t
    | none => true)

/-- `ORDER BY created_at, outbox_id`. -/
def Row.order (r : Row) : Lex (String × String) := toLex (r.createdAt, r.outboxId)

/-- The update of a claimed row. -/
def Row.take (now expires claimToken : String) (r : Row) : Row :=
  { r with
    deliveryState := .inFlight
    attemptCount := r.attemptCount.plus 1
    lastAttemptAt := some now
    claimToken := some claimToken
    claimExpiresAt := some expires
    lastErrorCode := none
    lastErrorDetail := none }

/-- `claim_native_transaction_outbox`, with the token that `secrets.token_hex(16)` draws: the
id of the claimed row. A claim that finds no row still commits the expired claims. -/
def claim (rows : List Row) (destinationPeerId txId : Option String) (now : Instant)
    (leaseSeconds : Int) (claimToken : String) : Py (List Row × Option String) := do
  require (0 ≤ leaseSeconds) (.value "Outbox claim lease_seconds must be non-negative.")
  let expires ← orRaise (now.addSeconds leaseSeconds.toNat)
    { exc := .overflowError, message := "date value out of range" }
  let rows ← updateState rows (Row.isExpired now.isoformat) Row.expire
  let candidates := rows.filter fun r =>
    r.isWaiting && r.isDue now.isoformat && r.matchesFilter destinationPeerId txId
  match candidates.argmin Row.order with
  | none => .ok (rows, none)
  | some row => do
    let rows ← updateState rows (fun r => r.outboxId = row.outboxId && r.isWaiting)
      (Row.take now.isoformat expires.isoformat claimToken)
    .ok (rows, some row.outboxId)

/-! ## Reports -/

/-- The update of an acknowledged row. -/
def Row.settle (acknowledgedAt : String) (r : Row) : Row :=
  { r with
    deliveryState := .acknowledged
    acknowledgedAt := some acknowledgedAt
    claimToken := none
    claimExpiresAt := none
    nextAttemptAt := none
    lastErrorCode := none
    lastErrorDetail := none }

/-- `acknowledge_native_transaction_outbox`; `clock` is what `_utc_now_iso` reads. -/
def acknowledge (rows : List Row) (messageId destinationPeerId txId : String)
    (acknowledgedAt claimToken : Option String) (clock : Instant) : Py (List Row × Bool) :=
  let acknowledgedAt := (filled acknowledgedAt).getD clock.isoformat
  match rows.find? fun r => r.delivery = (messageId, destinationPeerId) with
  | none => .ok (rows, false)
  | some row =>
    if row.txId ≠ normalizeTxId txId then .ok (rows, false)
    else if row.deliveryState = .acknowledged then .ok (rows, true)
    else if row.deliveryState ≠ .inFlight then .ok (rows, false)
    else if claimToken ≠ none ∧ row.claimToken ≠ claimToken then .ok (rows, false)
    else do
      let rows ← updateState rows (fun r => r.outboxId = row.outboxId) (Row.settle acknowledgedAt)
      .ok (rows, true)

/-- The update of a failed delivery. -/
def Row.giveUp (permanent : Bool) (nextAttemptAt errorCode errorDetail : Option String)
    (r : Row) : Row :=
  { r with
    deliveryState := if permanent then .permanentFailure else .retryWait
    nextAttemptAt
    claimToken := none
    claimExpiresAt := none
    lastErrorCode :=
      some (String.ofList (((filled errorCode).getD "delivery_failed").toList.take 128))
    lastErrorDetail := boundedErrorDetail errorDetail }

/-- `outbox_id = ? AND delivery_state = 'in_flight' AND claim_token = ?`: no row has the token
NULL. -/
def Row.isHeld (outboxId : String) (claimToken : Option String) (r : Row) : Bool :=
  r.outboxId = outboxId && r.deliveryState = .inFlight && r.claimToken.isSome &&
    r.claimToken = claimToken

/-- `fail_native_transaction_outbox`. -/
def fail (rows : List Row) (outboxId : String) (claimToken errorCode errorDetail : Option String)
    (permanent : Bool) (nextAttemptAt : Option String) : Py (List Row × Bool) := do
  let held := rows.countP (Row.isHeld outboxId claimToken)
  let rows ← updateState rows (Row.isHeld outboxId claimToken)
    (Row.giveUp permanent nextAttemptAt errorCode errorDetail)
  .ok (rows, held == 1)

/-! ## Refresh -/

/-- `s.rstrip("/")`. -/
def rstripSlash (s : String) : String := String.ofList (s.toList.rdropWhile (· == '/'))

/-- The update of a destination: the delivery state is not among its columns. -/
def Row.readdress (url now : String) (expedite : Bool) (r : Row) : Row :=
  { r with
    destinationPeerUrl := url
    nextAttemptAt :=
      if expedite ∧ r.deliveryState = .retryWait then some now else r.nextAttemptAt }

/-- `refresh_native_transaction_outbox_destination`: the number of rows updated. -/
def refresh (rows : List Row) (destinationPeerId destinationPeerUrl now : Option String)
    (expedite : Bool) (clock : Instant) : List Row × Nat :=
  let peerId := strip (destinationPeerId.getD "")
  let peerUrl := rstripSlash (strip (destinationPeerUrl.getD ""))
  if peerId = "" ∨ peerUrl = "" then (rows, 0)
  else
    let isOpen (r : Row) : Bool := r.destinationPeerId = peerId && !r.deliveryState.isTerminal
    (update rows isOpen (Row.readdress peerUrl ((filled now).getD clock.isoformat) expedite),
      rows.countP isOpen)

/-! ## Runs -/

/-- A call of a worker, with its arguments, the clock and what it draws. -/
inductive Call where
  | enqueue (records : List Record)
  | claim (destinationPeerId txId : Option String) (now : Instant) (leaseSeconds : Int)
      (claimToken : String)
  | acknowledge (messageId destinationPeerId txId : String)
      (acknowledgedAt claimToken : Option String) (clock : Instant)
  | fail (outboxId : String) (claimToken errorCode errorDetail : Option String)
      (permanent : Bool) (nextAttemptAt : Option String)
  | refresh (destinationPeerId destinationPeerUrl now : Option String) (expedite : Bool)
      (clock : Instant)

/-- What a call returns. -/
inductive Result where
  | enqueued
  | claimed (outboxId : Option String)
  | acknowledged (recorded : Bool)
  | failed (recorded : Bool)
  | refreshed (rowcount : Nat)
  deriving DecidableEq

def exec (rows : List Row) : Call → Py (List Row × Result)
  | .enqueue records => do
    let rows ← enqueue rows records
    .ok (rows, .enqueued)
  | .claim destinationPeerId txId now leaseSeconds claimToken => do
    let (rows, row) ← claim rows destinationPeerId txId now leaseSeconds claimToken
    .ok (rows, .claimed row)
  | .acknowledge messageId destinationPeerId txId acknowledgedAt claimToken clock => do
    let (rows, recorded) ←
      acknowledge rows messageId destinationPeerId txId acknowledgedAt claimToken clock
    .ok (rows, .acknowledged recorded)
  | .fail outboxId claimToken errorCode errorDetail permanent nextAttemptAt => do
    let (rows, recorded) ←
      fail rows outboxId claimToken errorCode errorDetail permanent nextAttemptAt
    .ok (rows, .failed recorded)
  | .refresh destinationPeerId destinationPeerUrl now expedite clock =>
    let (rows, rowcount) := refresh rows destinationPeerId destinationPeerUrl now expedite clock
    .ok (rows, .refreshed rowcount)

/-- A call that raises leaves the table as it was. -/
def step (rows : List Row) (c : Call) : List Row :=
  match exec rows c with
  | .ok (rows', _) => rows'
  | .error _ => rows

def run (rows : List Row) (calls : List Call) : List Row := calls.foldl step rows

/-! ## What a run did -/

/-- The row that the call claims. -/
def claimedBy (rows : List Row) (c : Call) : Option String :=
  match exec rows c with
  | .ok (_, .claimed row) => row
  | _ => none

/-- The claims of the row in a run. -/
def claimsOf (outboxId : String) : List Row → List Call → Nat
  | _, [] => 0
  | rows, c :: calls =>
    (if claimedBy rows c = some outboxId then 1 else 0) + claimsOf outboxId (step rows c) calls

/-- The token that an acknowledge or fail call reports under. -/
def Call.reportsUnder : Call → Option String
  | .acknowledge _ _ _ _ claimToken _ => claimToken
  | .fail _ claimToken _ _ _ _ => claimToken
  | _ => none

/-- The acknowledge and fail calls under the token that changed the table. -/
def effectsOf (token : String) : List Row → List Call → Nat
  | _, [] => 0
  | rows, c :: calls =>
    (if c.reportsUnder = some token ∧ step rows c ≠ rows then 1 else 0) +
      effectsOf token (step rows c) calls

/-- The claim calls that drew the token. -/
def Call.draws (token : String) : Call → Nat
  | .claim _ _ _ _ claimToken => if claimToken = token then 1 else 0
  | _ => 0

/-- The enqueued records that carry the token. -/
def Call.carries (token : String) : Call → Nat
  | .enqueue records => records.countP fun record => record.claimToken = some token
  | _ => 0

end Outbox

end ZoidbergChain
