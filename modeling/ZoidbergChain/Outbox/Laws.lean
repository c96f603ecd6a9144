import ZoidbergChain.Outbox.Model

/-!
# The delivery state machine

What any run of the outbox keeps.

- One spec lemma for each operation: `insertRecord_eq_ok`, `claim_eq`, `report_cases` and
  `refresh_map`. No update violates the transition trigger, because its condition names the
  states that it leaves.
- `Evolves` is what one call does to a row, `step_evolves` says it of every call, and
  `run_evolves` of every run.
- `step_tokens` bounds the rows in flight under a token and the reports under it by the claims
  that drew it and the records that carried it.
- `claim_of_ripe` is the claim of the first row that is due.
-/

namespace ZoidbergChain

open Python

namespace Outbox

/-! ## Attempts -/

theorem Attempts.plus_zero (a : Attempts) : a.plus 0 = a := by
  cases a with
  | count n fits => exact dif_pos fits
  | real => rfl

theorem Attempts.plus_plus (a : Attempts) (j k : Nat) : (a.plus j).plus k = a.plus (j + k) := by
  cases a with
  | real => rfl
  | count n fits =>
    show (ofNat (n + j)).plus k = ofNat (n + (j + k))
    by_cases h : n + j < 2 ^ 63
    · rw [ofNat, dif_pos h, plus, Nat.add_assoc]
    · have h' : ¬n + (j + k) < 2 ^ 63 := by omega
      rw [ofNat, dif_neg h, ofNat, dif_neg h']
      rfl

/-! ## Updates -/

section Updates

variable {rows : List Row} {p : Row → Bool} {set : Row → Row}

theorem updateState_ok (h : ∀ r ∈ rows, p r → legalTransition r.deliveryState
    (set r).deliveryState) : updateState rows p set = .ok (update rows p set) := by
  rw [updateState, require, if_pos h]
  rfl

theorem updateState_expire (now : String) :
    updateState rows (Row.isExpired now) Row.expire =
      .ok (update rows (Row.isExpired now) Row.expire) := by
  refine updateState_ok fun r _ hr => ?_
  have hstate : r.deliveryState = .inFlight := by
    simp only [Row.isExpired, Bool.and_eq_true, decide_eq_true_eq] at hr
    exact hr.1
  rw [hstate]
  rfl

theorem isWaiting_iff {r : Row} :
    r.isWaiting = true ↔ r.deliveryState = .queued ∨ r.deliveryState = .retryWait := by
  simp [Row.isWaiting]

theorem updateState_take (id now expires token : String) :
    updateState rows (fun r => r.outboxId = id && r.isWaiting) (Row.take now expires token) =
      .ok (update rows (fun r => r.outboxId = id && r.isWaiting)
        (Row.take now expires token)) := by
  refine updateState_ok fun r _ hr => ?_
  rw [Bool.and_eq_true] at hr
  obtain hstate | hstate := isWaiting_iff.mp hr.2 <;> rw [hstate] <;> rfl

theorem isHeld_iff {id : String} {token : Option String} {r : Row} :
    r.isHeld id token = true ↔
      r.outboxId = id ∧ r.deliveryState = .inFlight ∧
        ∃ t, r.claimToken = some t ∧ token = some t := by
  simp only [Row.isHeld, Bool.and_eq_true, decide_eq_true_eq, Option.isSome_iff_exists]
  constructor
  · rintro ⟨⟨⟨hid, hstate⟩, t, ht⟩, heq⟩
    exact ⟨hid, hstate, t, ht, heq ▸ ht⟩
  · rintro ⟨hid, hstate, t, ht, rfl⟩
    exact ⟨⟨⟨hid, hstate⟩, t, ht⟩, ht⟩

theorem updateState_giveUp (id : String) (token code detail next : Option String)
    (permanent : Bool) :
    updateState rows (Row.isHeld id token) (Row.giveUp permanent next code detail) =
      .ok (update rows (Row.isHeld id token) (Row.giveUp permanent next code detail)) := by
  refine updateState_ok fun r _ hr => ?_
  rw [(isHeld_iff.mp hr).2.1]
  cases permanent <;> rfl

theorem mem_update {r : Row} :
    r ∈ update rows p set ↔ ∃ q ∈ rows, (if p q then set q else q) = r := by
  simp [update]

theorem update_congr {p' : Row → Bool} (h : ∀ r ∈ rows, p r = p' r) :
    update rows p set = update rows p' set := by
  refine List.map_congr_left fun r hr => ?_
  show (if p r then set r else r) = if p' r then set r else r
  rw [h r hr]

theorem update_of_none (h : ∀ r ∈ rows, p r = false) : update rows p set = rows := by
  refine (List.map_congr_left fun r hr => ?_).trans (List.map_id rows)
  simp [h r hr]

/-- A column that the update leaves alone. -/
theorem map_update {α : Type} {column : Row → α} (h : ∀ r, column (set r) = column r) :
    (update rows p set).map column = rows.map column := by
  rw [update, List.map_map]
  refine List.map_congr_left fun r _ => ?_
  show column (if p r then set r else r) = column r
  split
  · exact h r
  · rfl

end Updates

/-! ## Keys -/

/-- The primary key and `UNIQUE(message_id, destination_peer_id)`. -/
structure Keyed (rows : List Row) : Prop where
  ids : (rows.map Row.outboxId).Nodup
  deliveries : (rows.map Row.delivery).Nodup

theorem keyed_nil : Keyed [] := ⟨List.nodup_nil, List.nodup_nil⟩

namespace Keyed

variable {rows : List Row} {q r : Row}

theorem eq_of_id (h : Keyed rows) (hq : q ∈ rows) (hr : r ∈ rows)
    (hid : q.outboxId = r.outboxId) : q = r :=
  List.inj_on_of_nodup_map h.ids hq hr hid

theorem eq_of_delivery (h : Keyed rows) (hq : q ∈ rows) (hr : r ∈ rows)
    (hdelivery : q.delivery = r.delivery) : q = r :=
  List.inj_on_of_nodup_map h.deliveries hq hr hdelivery

theorem update (h : Keyed rows) {p : Row → Bool} {set : Row → Row}
    (hid : ∀ r, (set r).outboxId = r.outboxId) (hdelivery : ∀ r, (set r).delivery = r.delivery) :
    Keyed (update rows p set) where
  ids := (map_update hid).symm ▸ h.ids
  deliveries := (map_update hdelivery).symm ▸ h.deliveries

theorem concat (h : Keyed rows) (hid : ∀ q ∈ rows, q.outboxId ≠ r.outboxId)
    (hdelivery : ∀ q ∈ rows, q.delivery ≠ r.delivery) : Keyed (rows ++ [r]) where
  ids := by
    rw [List.map_append, List.map_singleton, List.nodup_append]
    refine ⟨h.ids, List.nodup_singleton _, ?_⟩
    intro x hx y hy hxy
    obtain ⟨q, hq, rfl⟩ := List.mem_map.mp hx
    exact hid q hq (hxy.trans (List.mem_singleton.mp hy))
  deliveries := by
    rw [List.map_append, List.map_singleton, List.nodup_append]
    refine ⟨h.deliveries, List.nodup_singleton _, ?_⟩
    intro x hx y hy hxy
    obtain ⟨q, hq, rfl⟩ := List.mem_map.mp hx
    exact hdelivery q hq (hxy.trans (List.mem_singleton.mp hy))

/-- In a keyed table the update of one id touches one row. -/
theorem update_eq (h : Keyed rows) (hr : r ∈ rows) {p : Row → Bool} {set : Row → Row}
    (hp : p r = true) (honly : ∀ q ∈ rows, p q = true → q.outboxId = r.outboxId) :
    Outbox.update rows p set = Outbox.update rows (fun q => q.outboxId = r.outboxId) set := by
  refine update_congr fun q hq => ?_
  by_cases hid : q.outboxId = r.outboxId
  · rw [h.eq_of_id hq hr hid, hp]
    simp
  · rw [decide_eq_false hid]
    exact Bool.eq_false_iff.mpr fun hpq => hid (honly q hq hpq)

end Keyed

/-! ## Enqueue -/

/-- The columns that no operation changes. -/
structure Identity where
  outboxId : String
  messageId : String
  messageType : String
  txId : String
  destinationPeerId : String
  serializedMessage : String
  deriving DecidableEq

def Row.identity (r : Row) : Identity :=
  { outboxId := r.outboxId, messageId := r.messageId, messageType := r.messageType,
    txId := r.txId, destinationPeerId := r.destinationPeerId,
    serializedMessage := r.serializedMessage }

/-- The record asks for this delivery. -/
def Record.describes (record : Record) (i : Identity) : Prop :=
  record.outboxId = some i.outboxId ∧ record.messageId = some i.messageId ∧
    record.messageType = some i.messageType ∧ record.txId = some i.txId ∧
    record.destinationPeerId = some i.destinationPeerId ∧
    record.serializedMessage = some i.serializedMessage

theorem filled_eq_some {s : Option String} {t : String} :
    filled s = some t ↔ s = some t ∧ t ≠ "" := by
  cases s with
  | none => simp [filled]
  | some u =>
    by_cases h : u = ""
    · subst h
      simp [filled, Option.filter]
    · have : (u != "") = true := by simpa using h
      simp only [filled, Option.filter, this, if_true, Option.some.injEq]
      constructor
      · rintro rfl
        exact ⟨rfl, h⟩
      · exact fun hs => hs.1

theorem required_eq_ok {s : Option String} {t : String} :
    required s = .ok t ↔ s = some t ∧ t ≠ "" := by
  rw [required, orRaise_eq_ok, filled_eq_some]

/-- What an accepted record does: its delivery is there already, or its row is appended. -/
theorem insertRecord_cases {rows rows' : List Row} {record : Record}
    (h : insertRecord rows record = .ok rows') :
    (rows' = rows ∧ ∃ r ∈ rows, record.describes r.identity) ∨
    ∃ r : Row, rows' = rows ++ [r] ∧ record.describes r.identity ∧
      (∀ q ∈ rows, q.outboxId ≠ r.outboxId) ∧ (∀ q ∈ rows, q.delivery ≠ r.delivery) ∧
      r.attemptCount = .ofNat (record.attemptCount.getD 0).toNat ∧
      r.claimToken = record.claimToken := by
  simp only [insertRecord, bind_eq_ok, required_eq_ok] at h
  obtain ⟨outboxId, ⟨hid, -⟩, messageId, ⟨hmessage, -⟩, messageType, ⟨htype, -⟩, txId, ⟨htx, -⟩,
    peerId, ⟨hpeer, -⟩, url, -, serialized, ⟨hserialized, -⟩, state, -, created, -, h⟩ := h
  split at h
  · next r hfind =>
    have hmem := List.mem_of_find?_eq_some hfind
    have hdelivery : r.delivery = (messageId, peerId) := by
      simpa using List.find?_some hfind
    simp only [bind_eq_ok, require_eq_ok, Prod.mk.injEq, Except.ok.injEq] at h
    obtain ⟨⟨⟩, ⟨hr1, hr2, hr3, hr4⟩, rfl⟩ := h
    obtain ⟨hr5, hr6⟩ := Prod.mk.inj hdelivery
    refine Or.inl ⟨rfl, r, hmem, ?_⟩
    show record.outboxId = some r.outboxId ∧ _
    rw [hr1]
    refine ⟨hid, ?_, ?_, ?_, ?_, ?_⟩
    · exact hmessage.trans (congrArg some hr5.symm)
    · exact htype.trans (congrArg some hr2.symm)
    · exact htx.trans (congrArg some hr3.symm)
    · exact hpeer.trans (congrArg some hr6.symm)
    · exact hserialized.trans (congrArg some hr4.symm)
  · next hfind =>
    simp only [bind_eq_ok, require_eq_ok, orRaise_eq_ok, Except.ok.injEq] at h
    obtain ⟨⟨⟩, -, s, -, ⟨⟩, -, ⟨⟩, hfresh, rfl⟩ := h
    refine Or.inr ⟨_, rfl, ⟨hid, hmessage, htype, htx, hpeer, hserialized⟩, hfresh, ?_, rfl, rfl⟩
    intro q hq
    exact of_decide_eq_false (Bool.eq_false_iff.mpr (List.find?_eq_none.mp hfind q hq))

theorem enqueue_cons {rows rows' : List Row} {record : Record} {records : List Record} :
    enqueue rows (record :: records) = .ok rows' ↔
      ∃ mid, insertRecord rows record = .ok mid ∧ enqueue mid records = .ok rows' := by
  unfold enqueue
  exact foldlM_cons_eq_ok

/-- No exception of `x` is the trigger's. -/
def IsLegal {α : Type} (x : Py α) : Prop := x ≠ .error illegalTransition

theorem isLegal_ok {α : Type} (a : α) : IsLegal (.ok a : Py α) := nofun

theorem isLegal_error {α : Type} {e : PyError} (he : e ≠ illegalTransition) :
    IsLegal (.error e : Py α) := fun h => he (Except.error.inj h)

theorem isLegal_bind {α β : Type} {x : Py α} {f : α → Py β} (hx : IsLegal x)
    (hf : ∀ a, IsLegal (f a)) : IsLegal (x >>= f) := by
  cases x with
  | ok a => exact hf a
  | error e => exact fun h => hx (congrArg Except.error (Except.error.inj h))

theorem isLegal_require {c : Prop} [Decidable c] {e : PyError} (he : e ≠ illegalTransition) :
    IsLegal (require c e) := by
  unfold require
  split
  · exact isLegal_ok ()
  · exact isLegal_error he

theorem isLegal_orRaise {α : Type} (x : Option α) {e : PyError} (he : e ≠ illegalTransition) :
    IsLegal (orRaise x e) := by
  cases x with
  | none => exact isLegal_error he
  | some a => exact isLegal_ok a

theorem isLegal_insertRecord (rows : List Row) (record : Record) :
    IsLegal (insertRecord rows record) := by
  unfold insertRecord required
  iterate 9 refine isLegal_bind (isLegal_orRaise _ (by decide)) fun _ => ?_
  split
  · exact isLegal_bind (isLegal_require (by decide)) fun _ => isLegal_ok _
  · refine isLegal_bind (isLegal_require (by decide)) fun _ => ?_
    refine isLegal_bind (isLegal_orRaise _ (by decide)) fun _ => ?_
    refine isLegal_bind (isLegal_require (by decide)) fun _ => ?_
    exact isLegal_bind (isLegal_require (by decide)) fun _ => isLegal_ok _

theorem isLegal_enqueue (rows : List Row) (records : List Record) :
    IsLegal (enqueue rows records) := by
  induction records generalizing rows with
  | nil => exact isLegal_ok rows
  | cons record records ih => exact isLegal_bind (isLegal_insertRecord rows record) ih

/-- An accepted batch appends rows, one for each new delivery. -/
theorem enqueue_spec {rows rows' : List Row} {records : List Record}
    (h : enqueue rows records = .ok rows') :
    ∃ new, rows' = rows ++ new ∧ (Keyed rows → Keyed rows') ∧
      (∀ record ∈ records, ∃ r ∈ rows', record.describes r.identity) ∧
      (∀ r ∈ new, ∃ record ∈ records, record.describes r.identity ∧
        r.attemptCount = .ofNat (record.attemptCount.getD 0).toNat) ∧
      ∀ token, new.countP (fun r => r.claimToken = some token) ≤
        records.countP fun record => record.claimToken = some token := by
  induction records generalizing rows with
  | nil =>
    rw [enqueue, foldlM_nil_eq_ok] at h
    subst h
    exact ⟨[], by simp, id, by simp, by simp, fun _ => Nat.le_refl _⟩
  | cons record records ih =>
    obtain ⟨mid, hrecord, hrest⟩ := enqueue_cons.mp h
    obtain ⟨new, rfl, hkeyed, hpresent, hnew, hcarried⟩ := ih hrest
    obtain ⟨rfl, q, hq, hdescribes⟩ | ⟨r, rfl, hdescribes, hid, hdelivery, hattempts, htoken⟩ :=
      insertRecord_cases hrecord
    · refine ⟨new, rfl, hkeyed, ?_, ?_, ?_⟩
      · rw [List.forall_mem_cons]
        exact ⟨⟨q, List.mem_append_left _ hq, hdescribes⟩, hpresent⟩
      · intro r hr
        obtain ⟨record', hmem, hr⟩ := hnew r hr
        exact ⟨record', List.mem_cons_of_mem _ hmem, hr⟩
      · intro token
        exact Nat.le_trans (hcarried token) (List.Sublist.countP_le (List.sublist_cons_self ..))
    · refine ⟨r :: new, by simp, fun hrows => hkeyed (hrows.concat hid hdelivery), ?_, ?_, ?_⟩
      · rw [List.forall_mem_cons]
        exact ⟨⟨r, by simp, hdescribes⟩, hpresent⟩
      · rw [List.forall_mem_cons]
        refine ⟨⟨record, List.mem_cons_self .., hdescribes, hattempts⟩, ?_⟩
        intro s hs
        obtain ⟨record', hmem, hs⟩ := hnew s hs
        exact ⟨record', List.mem_cons_of_mem _ hmem, hs⟩
      · intro token
        rw [List.countP_cons, List.countP_cons, htoken]
        exact Nat.add_le_add_right (hcarried token) _

/-! ## Claims -/

/-- The rows once the expired claims are given back. -/
def expireClaims (rows : List Row) (now : String) : List Row :=
  update rows (Row.isExpired now) Row.expire

/-- `delivery_state IN ('queued', 'retry_wait')`, due and within the filters. -/
def Row.isCandidate (destinationPeerId txId : Option String) (now : String) (r : Row) : Bool :=
  r.isWaiting && r.isDue now && r.matchesFilter destinationPeerId txId

/-- The claim of a row. -/
def takeRow (rows : List Row) (id now expires token : String) : List Row :=
  update rows (fun r => r.outboxId = id && r.isWaiting) (Row.take now expires token)

theorem claim_eq {r : List Row} {d t : Option String} {now expires : Instant}
    {leaseSeconds : Int} (token : String) (hlease : 0 ≤ leaseSeconds)
    (hexpires : now.addSeconds leaseSeconds.toNat = some expires) :
    claim r d t now leaseSeconds token =
      match ((expireClaims r now.isoformat).filter
          (Row.isCandidate d t now.isoformat)).argmin Row.order with
      | none => .ok (expireClaims r now.isoformat, none)
      | some row => .ok (takeRow (expireClaims r now.isoformat) row.outboxId now.isoformat
          expires.isoformat token, some row.outboxId) := by
  rw [claim, require, if_pos hlease, hexpires]
  simp only [bind, Except.bind, orRaise, updateState_expire, updateState_take]
  rfl

/-- A claim raises before it writes, finds nothing, or takes a candidate. -/
theorem claim_cases (rows : List Row) (destinationPeerId txId : Option String) (now : Instant)
    (leaseSeconds : Int) (token : String) :
    (∃ e, e ≠ illegalTransition ∧
      claim rows destinationPeerId txId now leaseSeconds token = .error e) ∨
    claim rows destinationPeerId txId now leaseSeconds token =
      .ok (expireClaims rows now.isoformat, none) ∨
    ∃ row ∈ expireClaims rows now.isoformat, ∃ expires : Instant, row.isWaiting = true ∧
      claim rows destinationPeerId txId now leaseSeconds token =
        .ok (takeRow (expireClaims rows now.isoformat) row.outboxId now.isoformat
          expires.isoformat token, some row.outboxId) := by
  by_cases hlease : 0 ≤ leaseSeconds
  · cases hexpires : now.addSeconds leaseSeconds.toNat with
    | none =>
      refine Or.inl ⟨{ exc := .overflowError, message := "date value out of range" },
        by decide, ?_⟩
      rw [claim, require, if_pos hlease, hexpires]
      rfl
    | some expires =>
      right
      rw [claim_eq token hlease hexpires]
      split
      · exact Or.inl rfl
      · next row hrow =>
        have hmem := List.mem_filter.mp (List.argmin_mem hrow)
        refine Or.inr ⟨row, hmem.1, expires, ?_, rfl⟩
        have hcandidate := hmem.2
        rw [Row.isCandidate, Bool.and_eq_true, Bool.and_eq_true] at hcandidate
        exact hcandidate.1.1
  · refine Or.inl ⟨.value "Outbox claim lease_seconds must be non-negative.", by decide, ?_⟩
    rw [claim, require, if_neg hlease]
    rfl

/-! ## Reports -/

/-- What a report does to the row that it settles. -/
structure Settles (set : Row → Row) : Prop where
  identity : ∀ r, (set r).identity = r.identity
  attempts : ∀ r, (set r).attemptCount = r.attemptCount
  leaves : ∀ r, (set r).deliveryState ≠ .inFlight

theorem settles_settle (acknowledgedAt : String) : Settles (Row.settle acknowledgedAt) :=
  ⟨fun _ => rfl, fun _ => rfl, fun _ => nofun⟩

theorem settles_giveUp (permanent : Bool) (next code detail : Option String) :
    Settles (Row.giveUp permanent next code detail) :=
  ⟨fun _ => rfl, fun _ => rfl, fun _ => by cases permanent <;> nofun⟩

/-- The table after a report on a row in flight; a report with a token holds the row under
it. -/
structure Reported (rows : List Row) (token : Option String) (r : Row) (rows' : List Row) :
    Prop where
  mem : r ∈ rows
  inFlight : r.deliveryState = .inFlight
  under : ∀ t, token = some t → r.claimToken = some t
  effect : ∃ set, Settles set ∧ rows' = update rows (fun q => q.outboxId = r.outboxId) set

theorem acknowledge_cases {rows : List Row} (hrows : Keyed rows)
    (messageId destinationPeerId txId : String) (acknowledgedAt token : Option String)
    (clock : Instant) :
    (∃ b, acknowledge rows messageId destinationPeerId txId acknowledgedAt token clock =
      .ok (rows, b)) ∨
    ∃ r rows' b, Reported rows token r rows' ∧
      acknowledge rows messageId destinationPeerId txId acknowledgedAt token clock =
        .ok (rows', b) := by
  unfold acknowledge
  split
  · exact Or.inl ⟨false, rfl⟩
  next r hfind =>
  have hmem := List.mem_of_find?_eq_some hfind
  by_cases htx : r.txId ≠ normalizeTxId txId
  · exact Or.inl ⟨false, if_pos htx⟩
  by_cases hdone : r.deliveryState = .acknowledged
  · exact Or.inl ⟨true, by rw [if_neg htx, if_pos hdone]⟩
  by_cases hstate : r.deliveryState ≠ .inFlight
  · exact Or.inl ⟨false, by rw [if_neg htx, if_neg hdone, if_pos hstate]⟩
  by_cases htoken : token ≠ none ∧ r.claimToken ≠ token
  · exact Or.inl ⟨false, by rw [if_neg htx, if_neg hdone, if_neg hstate, if_pos htoken]⟩
  have hflight : r.deliveryState = .inFlight := not_not.mp hstate
  right
  refine ⟨r, _, true, ⟨hmem, hflight, ?_, _,
    settles_settle ((filled acknowledgedAt).getD clock.isoformat), rfl⟩, ?_⟩
  · rintro t rfl
    by_contra hne
    exact htoken ⟨nofun, hne⟩
  · rw [if_neg htx, if_neg hdone, if_neg hstate, if_neg htoken, updateState_ok]
    · rfl
    · intro q hq hid
      rw [hrows.eq_of_id hq hmem (of_decide_eq_true hid), hflight]
      rfl

theorem fail_cases {rows : List Row} (hrows : Keyed rows) (id : String)
    (token code detail : Option String) (permanent : Bool) (next : Option String) :
    (∃ b, fail rows id token code detail permanent next = .ok (rows, b)) ∨
    ∃ r rows' b, Reported rows token r rows' ∧
      fail rows id token code detail permanent next = .ok (rows', b) := by
  have hfail : fail rows id token code detail permanent next =
      .ok (update rows (Row.isHeld id token) (Row.giveUp permanent next code detail),
        rows.countP (Row.isHeld id token) == 1) := by
    rw [fail, updateState_giveUp]
    rfl
  rw [hfail]
  by_cases h : ∃ r ∈ rows, r.isHeld id token = true
  · obtain ⟨r, hr, hheld⟩ := h
    obtain ⟨hid, hflight, t, ht, htoken⟩ := isHeld_iff.mp hheld
    refine Or.inr ⟨r, _, _, ⟨hr, hflight, ?_, _,
      settles_giveUp permanent next code detail, ?_⟩, rfl⟩
    · rintro t' rfl
      rw [ht, htoken]
    · refine hrows.update_eq hr hheld fun q _ hq => ?_
      rw [(isHeld_iff.mp hq).1, hid]
  · refine Or.inl ⟨rows.countP (Row.isHeld id token) == 1, ?_⟩
    rw [update_of_none fun r hr => Bool.eq_false_iff.mpr fun hheld => h ⟨r, hr, hheld⟩]

/-- The acknowledge and fail calls. -/
def Call.isReport : Call → Bool
  | .acknowledge .. | .fail .. => true
  | _ => false

/-- A report leaves the table alone or settles one row in flight. -/
theorem report_cases {rows : List Row} (hrows : Keyed rows) {c : Call} (hc : c.isReport = true) :
    (∃ x, exec rows c = .ok (rows, x)) ∨
    ∃ r rows' x, Reported rows c.reportsUnder r rows' ∧ exec rows c = .ok (rows', x) := by
  cases c with
  | enqueue records => cases hc
  | claim d t now lease token => cases hc
  | refresh d url now expedite clock => cases hc
  | acknowledge m d t at_ token clock =>
    obtain ⟨b, h⟩ | ⟨r, rows', b, hr, h⟩ := acknowledge_cases hrows m d t at_ token clock
    · exact Or.inl ⟨.acknowledged b, by rw [exec, h]; rfl⟩
    · exact Or.inr ⟨r, rows', .acknowledged b, hr, by rw [exec, h]; rfl⟩
  | fail id token code detail permanent next =>
    obtain ⟨b, h⟩ | ⟨r, rows', b, hr, h⟩ := fail_cases hrows id token code detail permanent next
    · exact Or.inl ⟨.failed b, by rw [exec, h]; rfl⟩
    · exact Or.inr ⟨r, rows', .failed b, hr, by rw [exec, h]; rfl⟩

/-! ## Refresh -/

/-- A refresh rewrites the address and the schedule of open rows. -/
theorem refresh_map (rows : List Row) (destinationPeerId destinationPeerUrl now : Option String)
    (expedite : Bool) (clock : Instant) :
    (refresh rows destinationPeerId destinationPeerUrl now expedite clock).1 = rows ∨
    ∃ (p : Row → Bool) (url at_ : String), (∀ r, p r = true → r.deliveryState.isTerminal = false) ∧
      (refresh rows destinationPeerId destinationPeerUrl now expedite clock).1 =
        update rows p (Row.readdress url at_ expedite) := by
  unfold refresh
  extract_lets peerId peerUrl isOpen
  split
  · exact Or.inl rfl
  · refine Or.inr ⟨isOpen, _, _, ?_, rfl⟩
    intro r hr
    rw [Bool.and_eq_true, Bool.not_eq_true'] at hr
    exact hr.2

/-! ## One call on one row -/

/-- What a call does to a row. -/
structure Evolves (claimed : Option String) (r r' : Row) : Prop where
  identity : r'.identity = r.identity
  terminal : r.deliveryState.isTerminal = true → r' = r
  attempts : r'.attemptCount = r.attemptCount.plus (if claimed = some r.outboxId then 1 else 0)

theorem Evolves.refl {claimed : Option String} {r : Row} (h : claimed ≠ some r.outboxId) :
    Evolves claimed r r where
  identity := rfl
  terminal _ := rfl
  attempts := by rw [if_neg h, Attempts.plus_zero]

theorem Evolves.trans {claimed : Option String} {q r s : Row} (hqr : Evolves none q r)
    (hrs : Evolves claimed r s) : Evolves claimed q s where
  identity := hrs.identity.trans hqr.identity
  terminal hq := by
    obtain rfl := hqr.terminal hq
    exact hrs.terminal hq
  attempts := by
    have hid : r.outboxId = q.outboxId := congrArg Identity.outboxId hqr.identity
    rw [hrs.attempts, hqr.attempts, hid, if_neg nofun, Attempts.plus_zero]

/-- An update that closes no row and counts nothing. -/
theorem evolves_update {p : Row → Bool} {f : Row → Row}
    (hp : ∀ r, p r = true → r.deliveryState.isTerminal = false)
    (hidentity : ∀ r, (f r).identity = r.identity)
    (hattempts : ∀ r, (f r).attemptCount = r.attemptCount) (r : Row) :
    Evolves none r (if p r then f r else r) := by
  by_cases hr : p r = true
  · rw [if_pos hr]
    refine ⟨hidentity r, fun ht => ?_, ?_⟩
    · rw [hp r hr] at ht
      cases ht
    · rw [hattempts r, if_neg nofun, Attempts.plus_zero]
  · rw [if_neg hr]
    exact Evolves.refl nofun

theorem evolves_expire (now : String) (r : Row) :
    Evolves none r (if r.isExpired now then r.expire else r) := by
  refine evolves_update (f := Row.expire) ?_ (fun _ => rfl) (fun _ => rfl) r
  intro q hq
  simp only [Row.isExpired, Bool.and_eq_true, decide_eq_true_eq] at hq
  rw [hq.1]
  rfl

theorem evolves_take {r : Row} (hr : r.isWaiting = true) (now expires token : String) :
    Evolves (some r.outboxId) r (r.take now expires token) where
  identity := rfl
  terminal ht := by
    obtain hstate | hstate := isWaiting_iff.mp hr <;> rw [hstate] at ht <;> cases ht
  attempts := by
    rw [if_pos rfl]
    rfl

/-- The row is what the call makes of one of its records. -/
def Call.Brings (r : Row) : Call → Prop
  | .enqueue records => ∃ record ∈ records, record.describes r.identity ∧
      r.attemptCount = .ofNat (record.attemptCount.getD 0).toNat
  | _ => False

/-- The table after a call: each row evolved, then new rows. -/
def TableEvolves (c : Call) (claimed : Option String) (rows rows' : List Row) : Prop :=
  ∃ (f : Row → Row) (new : List Row), rows' = rows.map f ++ new ∧
    (∀ r ∈ rows, Evolves claimed r (f r)) ∧ ∀ r ∈ new, c.Brings r

theorem TableEvolves.refl (c : Call) (rows : List Row) : TableEvolves c none rows rows :=
  ⟨id, [], by simp, fun _ _ => Evolves.refl nofun, by simp⟩

theorem tableEvolves_update {c : Call} {rows : List Row} {p : Row → Bool} {set : Row → Row}
    (h : ∀ r ∈ rows, Evolves none r (if p r then set r else r)) :
    TableEvolves c none rows (update rows p set) :=
  ⟨_, [], (List.append_nil _).symm, h, by simp⟩

theorem expireClaims_keyed {rows : List Row} (hrows : Keyed rows) (now : String) :
    Keyed (expireClaims rows now) :=
  hrows.update (fun _ => rfl) fun _ => rfl

theorem takeRow_keyed {rows : List Row} (hrows : Keyed rows) (id now expires token : String) :
    Keyed (takeRow rows id now expires token) :=
  hrows.update (fun _ => rfl) fun _ => rfl

theorem evolves_takeRow {rows : List Row} (hrows : Keyed rows) {q row : Row} (hq : q ∈ rows)
    (hrow : row ∈ rows) (hwaiting : row.isWaiting = true) (now expires token : String) :
    Evolves (some row.outboxId) q
      (if q.outboxId = row.outboxId && q.isWaiting then q.take now expires token else q) := by
  by_cases hid : q.outboxId = row.outboxId
  · obtain rfl := hrows.eq_of_id hq hrow hid
    simp only [decide_true, Bool.true_and, hwaiting, if_true]
    exact evolves_take hwaiting now expires token
  · simp only [hid, decide_false, Bool.false_and, Bool.false_eq_true, if_false]
    exact Evolves.refl fun heq => hid (Option.some.inj heq).symm

theorem tableEvolves_take {c : Call} {rows : List Row} {now : String} (hrows : Keyed rows)
    {row : Row}
    (hrow : row ∈ expireClaims rows now) (hwaiting : row.isWaiting = true)
    (at_ expires token : String) :
    TableEvolves c (some row.outboxId) rows
      (takeRow (expireClaims rows now) row.outboxId at_ expires token) := by
  refine ⟨fun r =>
    (fun q => if q.outboxId = row.outboxId && q.isWaiting then q.take at_ expires token else q)
      (if r.isExpired now then r.expire else r), [], ?_, ?_, by simp⟩
  · rw [List.append_nil]
    show List.map _ (List.map _ _) = _
    rw [List.map_map]
    rfl
  · intro r hr
    exact (evolves_expire now r).trans (evolves_takeRow (expireClaims_keyed hrows now)
      (mem_update.mpr ⟨r, hr, rfl⟩) hrow hwaiting at_ expires token)

/-- No call aborts on the trigger, and every call keeps the keys and evolves the rows. -/
structure StepSpec (rows : List Row) (c : Call) : Prop where
  legal : exec rows c ≠ .error illegalTransition
  keyed : Keyed (step rows c)
  evolves : TableEvolves c (claimedBy rows c) rows (step rows c)

theorem stepSpec_unchanged {rows : List Row} (hrows : Keyed rows) {c : Call} {x : Result}
    (h : exec rows c = .ok (rows, x)) (hx : ∀ row, x ≠ .claimed row) : StepSpec rows c where
  legal := by rw [h]; nofun
  keyed := by rw [step, h]; exact hrows
  evolves := by
    have hclaimed : claimedBy rows c = none := by
      rw [claimedBy, h]
      cases x with
      | claimed row => exact absurd rfl (hx row)
      | _ => rfl
    rw [hclaimed, step, h]
    exact TableEvolves.refl c rows

theorem stepSpec_error {rows : List Row} (hrows : Keyed rows) {c : Call} {e : PyError}
    (h : exec rows c = .error e) (he : e ≠ illegalTransition) : StepSpec rows c where
  legal := by rw [h]; exact isLegal_error he
  keyed := by rw [step, h]; exact hrows
  evolves := by
    rw [claimedBy, step, h]
    exact TableEvolves.refl c rows

theorem stepSpec_enqueue {rows : List Row} (hrows : Keyed rows) (records : List Record) :
    StepSpec rows (.enqueue records) := by
  cases h : enqueue rows records with
  | error e =>
    have hexec : exec rows (.enqueue records) = .error e := by rw [exec, h]; rfl
    refine stepSpec_error hrows hexec ?_
    rintro rfl
    exact isLegal_enqueue rows records h
  | ok rows' =>
    have hexec : exec rows (.enqueue records) = .ok (rows', .enqueued) := by rw [exec, h]; rfl
    obtain ⟨new, hnew, hkeyed, -, hbrings, -⟩ := enqueue_spec h
    refine ⟨by rw [hexec]; nofun, by rw [step, hexec]; exact hkeyed hrows, ?_⟩
    rw [claimedBy, step, hexec]
    exact ⟨id, new, by simpa using hnew, fun _ _ => Evolves.refl nofun, hbrings⟩

theorem stepSpec_claim {rows : List Row} (hrows : Keyed rows)
    (destinationPeerId txId : Option String) (now : Instant) (leaseSeconds : Int)
    (token : String) : StepSpec rows (.claim destinationPeerId txId now leaseSeconds token) := by
  obtain ⟨e, he, h⟩ | h | ⟨row, hrow, expires, hwaiting, h⟩ :=
    claim_cases rows destinationPeerId txId now leaseSeconds token
  · refine stepSpec_error hrows (e := e) ?_ he
    rw [exec, h]
    rfl
  · have hexec : exec rows (.claim destinationPeerId txId now leaseSeconds token) =
        .ok (expireClaims rows now.isoformat, .claimed none) := by rw [exec, h]; rfl
    refine ⟨by rw [hexec]; nofun, by rw [step, hexec]; exact expireClaims_keyed hrows _, ?_⟩
    rw [claimedBy, step, hexec]
    exact tableEvolves_update fun r _ => evolves_expire _ r
  · have hexec : exec rows (.claim destinationPeerId txId now leaseSeconds token) =
        .ok (takeRow (expireClaims rows now.isoformat) row.outboxId now.isoformat
          expires.isoformat token, .claimed (some row.outboxId)) := by rw [exec, h]; rfl
    refine ⟨by rw [hexec]; nofun, ?_, ?_⟩
    · rw [step, hexec]
      exact takeRow_keyed (expireClaims_keyed hrows _) ..
    · rw [claimedBy, step, hexec]
      exact tableEvolves_take hrows hrow hwaiting ..

theorem stepSpec_report {rows : List Row} (hrows : Keyed rows) {c : Call}
    (hc : c.isReport = true) : StepSpec rows c := by
  have hclaimed : ∀ rows' x, exec rows c = .ok (rows', x) → ∀ row, x ≠ .claimed row := by
    intro rows' x hx row
    cases c with
    | enqueue records => cases hc
    | claim d t now lease token => cases hc
    | refresh d url now expedite clock => cases hc
    | acknowledge m d t at_ token clock =>
      rw [exec, bind_eq_ok] at hx
      obtain ⟨_, -, hx⟩ := hx
      cases hx
      nofun
    | fail id token code detail permanent next =>
      rw [exec, bind_eq_ok] at hx
      obtain ⟨_, -, hx⟩ := hx
      cases hx
      nofun
  obtain ⟨x, hx⟩ | ⟨r, rows', x, hr, hx⟩ := report_cases hrows hc
  · exact stepSpec_unchanged hrows hx (hclaimed _ _ hx)
  · obtain ⟨set, hset, hrows'⟩ := hr.effect
    have hid : ∀ q, (set q).outboxId = q.outboxId := fun q =>
      congrArg Identity.outboxId (hset.identity q)
    have hdelivery : ∀ q, (set q).delivery = q.delivery := fun q =>
      congrArg (fun i => (i.messageId, i.destinationPeerId)) (hset.identity q)
    have hnone : claimedBy rows c = none := by
      rw [claimedBy, hx]
      cases x with
      | claimed row => exact absurd rfl (hclaimed _ _ hx row)
      | _ => rfl
    refine ⟨by rw [hx]; nofun, ?_, ?_⟩
    · rw [step, hx]
      exact hrows' ▸ hrows.update hid hdelivery
    · rw [hnone, step, hx, hrows']
      refine tableEvolves_update fun q hq => ?_
      by_cases hqr : q.outboxId = r.outboxId
      · obtain rfl := hrows.eq_of_id hq hr.mem hqr
        have hopen : q.deliveryState.isTerminal = false := by
          rw [hr.inFlight]
          rfl
        have hevolves := evolves_update (p := fun s => !s.deliveryState.isTerminal)
          (fun s hs => by simpa using hs) hset.identity hset.attempts q
        simpa only [hopen, Bool.not_false, decide_true, if_true] using hevolves
      · simp only [hqr, decide_false, Bool.false_eq_true, if_false]
        exact Evolves.refl nofun

theorem stepSpec_refresh {rows : List Row} (hrows : Keyed rows)
    (destinationPeerId destinationPeerUrl now : Option String) (expedite : Bool)
    (clock : Instant) :
    StepSpec rows (.refresh destinationPeerId destinationPeerUrl now expedite clock) := by
  have hexec : exec rows (.refresh destinationPeerId destinationPeerUrl now expedite clock) =
      .ok ((refresh rows destinationPeerId destinationPeerUrl now expedite clock).1,
        .refreshed (refresh rows destinationPeerId destinationPeerUrl now expedite clock).2) := by
    rw [exec]
  obtain h | ⟨p, url, at_, hp, h⟩ :=
    refresh_map rows destinationPeerId destinationPeerUrl now expedite clock
  · rw [h] at hexec
    exact stepSpec_unchanged hrows hexec nofun
  · rw [h] at hexec
    refine ⟨by rw [hexec]; nofun, ?_, ?_⟩
    · rw [step, hexec]
      exact hrows.update (fun _ => rfl) fun _ => rfl
    · rw [claimedBy, step, hexec]
      refine tableEvolves_update fun r _ => ?_
      exact evolves_update (f := Row.readdress url at_ expedite) hp (fun _ => rfl)
        (fun _ => rfl) r

/-- What one call does, one case for each operation. -/
theorem step_spec {rows : List Row} (hrows : Keyed rows) (c : Call) : StepSpec rows c := by
  cases c with
  | enqueue records => exact stepSpec_enqueue hrows records
  | claim d t now lease token => exact stepSpec_claim hrows d t now lease token
  | acknowledge m d t at_ token clock => exact stepSpec_report hrows rfl
  | fail id token code detail permanent next => exact stepSpec_report hrows rfl
  | refresh d url now expedite clock => exact stepSpec_refresh hrows d url now expedite clock

/-! ## Runs -/

theorem run_keyed {rows : List Row} (hrows : Keyed rows) (calls : List Call) :
    Keyed (run rows calls) := by
  induction calls generalizing rows with
  | nil => exact hrows
  | cons c calls ih => exact ih (step_spec hrows c).keyed

/-- Every row stays, under its identity; a terminal row stays as it is, and the attempts of a
row grow by its claims. -/
theorem run_evolves {rows : List Row} (hrows : Keyed rows) (calls : List Call) {r : Row}
    (hr : r ∈ rows) : ∃ r' ∈ run rows calls, r'.identity = r.identity ∧
      (r.deliveryState.isTerminal = true → r' = r) ∧
      r'.attemptCount = r.attemptCount.plus (claimsOf r.outboxId rows calls) := by
  induction calls generalizing rows r with
  | nil => exact ⟨r, hr, rfl, fun _ => rfl, (Attempts.plus_zero _).symm⟩
  | cons c calls ih =>
    obtain ⟨hlegal, hkeyed, f, new, hstep, hf, -⟩ := step_spec hrows c
    have hfr := hf r hr
    have hmem : f r ∈ step rows c := by
      rw [hstep]
      exact List.mem_append_left _ (List.mem_map_of_mem hr)
    obtain ⟨r', hr', hidentity, hterminal, hattempts⟩ := ih hkeyed hmem
    have hid : (f r).outboxId = r.outboxId := congrArg Identity.outboxId hfr.identity
    refine ⟨r', hr', hidentity.trans hfr.identity, ?_, ?_⟩
    · intro ht
      have heq := hfr.terminal ht
      rw [← heq] at ht ⊢
      exact hterminal (heq ▸ ht)
    · rw [hattempts, hfr.attempts, Attempts.plus_plus, hid]
      rfl

theorem run_append (rows : List Row) (calls more : List Call) :
    run rows (calls ++ more) = run (run rows calls) more := List.foldl_append

theorem claimsOf_append (outboxId : String) (rows : List Row) (calls more : List Call) :
    claimsOf outboxId rows (calls ++ more) =
      claimsOf outboxId rows calls + claimsOf outboxId (run rows calls) more := by
  induction calls generalizing rows with
  | nil => simp [claimsOf, run]
  | cons c calls ih =>
    show _ + claimsOf outboxId (step rows c) (calls ++ more) = _
    rw [ih, ← Nat.add_assoc]
    rfl

/-- A row of a run from the empty table was brought by an enqueue call, and its attempts are
those of its record and its claims since. -/
theorem run_origin (calls : List Call) {r : Row} (hr : r ∈ run [] calls) :
    ∃ before c after, calls = before ++ c :: after ∧
      ∃ r₀ ∈ step (run [] before) c, c.Brings r₀ ∧ r.identity = r₀.identity ∧
        r.attemptCount =
          r₀.attemptCount.plus (claimsOf r.outboxId (step (run [] before) c) after) := by
  induction calls using List.reverseRecOn generalizing r with
  | nil => cases hr
  | append_singleton calls c ih =>
    obtain ⟨-, -, f, new, hstep, hf, hnew⟩ := step_spec (run_keyed keyed_nil calls) c
    have hr' : r ∈ step (run [] calls) c := by rwa [run_append] at hr
    rw [hstep] at hr'
    obtain hold | hbrought := List.mem_append.mp hr'
    · obtain ⟨q, hq, rfl⟩ := List.mem_map.mp hold
      obtain ⟨before, c₀, after, rfl, r₀, hr₀, hbrings, hidentity, hattempts⟩ := ih hq
      have hfq := hf q hq
      have hid : (f q).outboxId = q.outboxId := congrArg Identity.outboxId hfq.identity
      refine ⟨before, c₀, after ++ [c], by simp, r₀, hr₀, hbrings,
        hfq.identity.trans hidentity, ?_⟩
      rw [hfq.attempts, hattempts, Attempts.plus_plus, claimsOf_append, hid, run_append]
      rfl
    · refine ⟨calls, c, [], rfl, r, ?_, hnew r hbrought, rfl, (Attempts.plus_zero _).symm⟩
      rw [hstep]
      exact List.mem_append_right _ hbrought

/-! ## Tokens -/

/-- The row is in flight under the token. -/
def Row.isUnder (token : String) (r : Row) : Bool :=
  r.deliveryState = .inFlight && r.claimToken = some token

def holders (token : String) (rows : List Row) : Nat := rows.countP (Row.isUnder token)

section Counting

variable {rows : List Row} {p q : Row → Bool} {set : Row → Row}

theorem countP_update_le (h : ∀ r ∈ rows, p r = true → q (set r) = true → q r = true) :
    (update rows p set).countP q ≤ rows.countP q := by
  rw [update, List.countP_map]
  refine List.countP_mono_left fun r hr hq => ?_
  by_cases hp : p r = true
  · exact h r hr hp (by simpa [hp] using hq)
  · simpa [hp] using hq

theorem countP_update_lt {r : Row} (hr : r ∈ rows) (hp : p r = true) (hq : q r = true)
    (h : ∀ s, q (set s) = false) : (update rows p set).countP q < rows.countP q := by
  obtain ⟨before, after, rfl⟩ := List.append_of_mem hr
  have hbefore := @countP_update_le before p q set
    fun s _ _ hs => by rw [h s] at hs; cases hs
  have hafter := @countP_update_le after p q set
    fun s _ _ hs => by rw [h s] at hs; cases hs
  have hsplit : (update (before ++ r :: after) p set).countP q =
      (update before p set).countP q + (update after p set).countP q := by
    simp [update, List.countP_append, hp, h]
  rw [hsplit, List.countP_append, List.countP_cons, if_pos hq]
  omega

theorem countP_update_add_le :
    (update rows p set).countP q ≤ rows.countP q + rows.countP p := by
  induction rows with
  | nil => exact Nat.le_refl _
  | cons r rows ih =>
    have hhead : (if q (if p r = true then set r else r) = true then 1 else 0) ≤
        (if q r = true then 1 else 0) + if p r = true then 1 else 0 := by
      by_cases hp : p r = true
      · rw [if_pos hp, if_pos hp]
        split <;> split <;> omega
      · rw [if_neg hp, if_neg hp]
        exact Nat.le_refl _
    have hcons : (update (r :: rows) p set).countP q = (update rows p set).countP q +
        if q (if p r = true then set r else r) = true then 1 else 0 := List.countP_cons ..
    rw [hcons, List.countP_cons, List.countP_cons]
    omega

end Counting

theorem Keyed.countP_id_le {rows : List Row} (hrows : Keyed rows) (id : String)
    (p : Row → Bool) : rows.countP (fun r => r.outboxId = id && p r) ≤ 1 := by
  have hcount : (rows.map Row.outboxId).count id ≤ 1 :=
    List.nodup_iff_count_le_one.mp hrows.ids id
  rw [List.count, List.countP_map] at hcount
  refine Nat.le_trans (List.countP_mono_left fun r _ hr => ?_) hcount
  rw [Bool.and_eq_true] at hr
  simpa using hr.1

theorem holders_takeRow {rows : List Row} (hrows : Keyed rows) (id now expires drawn : String)
    (token : String) : holders token (takeRow rows id now expires drawn) ≤
      holders token rows + if drawn = token then 1 else 0 := by
  by_cases h : drawn = token
  · rw [if_pos h]
    exact Nat.le_trans countP_update_add_le (Nat.add_le_add_left (hrows.countP_id_le id _) _)
  · rw [if_neg h]
    refine countP_update_le fun r _ _ hr => ?_
    simp [Row.isUnder, Row.take, h] at hr

theorem holders_expireClaims (rows : List Row) (now token : String) :
    holders token (expireClaims rows now) ≤ holders token rows :=
  countP_update_le fun r _ _ hr => by simp [Row.isUnder, Row.expire] at hr

theorem holders_reported {rows rows' : List Row} {token : String} {r : Row}
    (h : Reported rows (some token) r rows') : holders token rows' < holders token rows := by
  obtain ⟨set, hset, rfl⟩ := h.effect
  refine countP_update_lt h.mem (by simp) ?_ fun s => ?_
  · rw [Row.isUnder, h.inFlight, h.under token rfl]
    simp
  · rw [Row.isUnder, Bool.and_eq_false_iff]
    exact Or.inl (decide_eq_false (hset.leaves s))

theorem isReport_of_reportsUnder {c : Call} {token : String} (h : c.reportsUnder = some token) :
    c.isReport = true := by
  cases c with
  | acknowledge => rfl
  | fail => rfl
  | _ => cases h

/-- A report under a token that changes the table settles a row that is in flight under it. -/
theorem report_effect {rows : List Row} (hrows : Keyed rows) {c : Call} {token : String}
    (hc : c.reportsUnder = some token) (hne : step rows c ≠ rows) :
    ∃ r, Reported rows (some token) r (step rows c) := by
  obtain ⟨x, hx⟩ | ⟨r, rows', x, hr, hx⟩ := report_cases hrows (isReport_of_reportsUnder hc)
  · exact absurd (by rw [step, hx]) hne
  · refine ⟨r, ?_⟩
    rw [step, hx, ← hc]
    exact hr

theorem holders_report {rows : List Row} (hrows : Keyed rows) {c : Call}
    (hc : c.isReport = true) (token : String) :
    holders token (step rows c) ≤ holders token rows := by
  obtain ⟨x, hx⟩ | ⟨r, rows', x, hr, hx⟩ := report_cases hrows hc
  · rw [step, hx]
  · obtain ⟨set, hset, rfl⟩ := hr.effect
    rw [step, hx]
    refine countP_update_le fun s _ _ hs => ?_
    rw [Row.isUnder, Bool.and_eq_true] at hs
    exact absurd (of_decide_eq_true hs.1) (hset.leaves s)

/-- The rows in flight under a token and the effect of the call, against what drew or carried
the token. -/
theorem step_tokens {rows : List Row} (hrows : Keyed rows) (c : Call) (token : String) :
    (if c.reportsUnder = some token ∧ step rows c ≠ rows then 1 else 0) +
        holders token (step rows c) ≤
      holders token rows + (c.draws token + c.carries token) := by
  by_cases heffect : c.reportsUnder = some token ∧ step rows c ≠ rows
  · obtain ⟨r, hr⟩ := report_effect hrows heffect.1 heffect.2
    have := holders_reported hr
    rw [if_pos heffect]
    omega
  rw [if_neg heffect, Nat.zero_add]
  cases c with
  | enqueue records =>
    cases h : enqueue rows records with
    | error e =>
      have hstep : step rows (.enqueue records) = rows := by
        rw [step, exec, h]
        rfl
      rw [hstep]
      exact Nat.le_add_right ..
    | ok rows' =>
      have hstep : step rows (.enqueue records) = rows' := by
        rw [step, exec, h]
        rfl
      obtain ⟨new, rfl, -, -, -, hcarried⟩ := enqueue_spec h
      rw [hstep, holders, List.countP_append]
      refine Nat.add_le_add_left (Nat.le_trans ?_ (Nat.le_add_left _ _)) _
      refine Nat.le_trans (List.countP_mono_left fun r _ hr => ?_) (hcarried token)
      rw [Row.isUnder, Bool.and_eq_true] at hr
      exact hr.2
  | claim d t now lease drawn =>
    obtain ⟨e, -, h⟩ | h | ⟨row, -, expires, -, h⟩ := claim_cases rows d t now lease drawn
    · have hstep : step rows (.claim d t now lease drawn) = rows := by
        rw [step, exec, h]
        rfl
      rw [hstep]
      exact Nat.le_add_right ..
    · have hstep : step rows (.claim d t now lease drawn) = expireClaims rows now.isoformat := by
        rw [step, exec, h]
        rfl
      rw [hstep]
      exact Nat.le_trans (holders_expireClaims ..) (Nat.le_add_right ..)
    · have hstep : step rows (.claim d t now lease drawn) =
          takeRow (expireClaims rows now.isoformat) row.outboxId now.isoformat expires.isoformat
            drawn := by
        rw [step, exec, h]
        rfl
      rw [hstep]
      refine Nat.le_trans (holders_takeRow (expireClaims_keyed hrows _) ..) ?_
      exact Nat.add_le_add (holders_expireClaims ..) (Nat.le_add_right ..)
  | refresh d url now expedite clock =>
    refine Nat.le_trans ?_ (Nat.le_add_right ..)
    show holders token (refresh rows d url now expedite clock).1 ≤ _
    obtain h | ⟨p, url, at_, -, h⟩ := refresh_map rows d url now expedite clock
    · rw [h]
    · rw [h]
      exact countP_update_le fun _ _ _ hr => hr
  | acknowledge m d t at_ given clock =>
    refine Nat.le_trans ?_ (Nat.le_add_right ..)
    exact holders_report hrows rfl token
  | fail id given code detail permanent next =>
    refine Nat.le_trans ?_ (Nat.le_add_right ..)
    exact holders_report hrows rfl token

theorem run_tokens {rows : List Row} (hrows : Keyed rows) (calls : List Call) (token : String) :
    effectsOf token rows calls + holders token (run rows calls) ≤ holders token rows +
      ((calls.map (Call.draws token)).sum + (calls.map (Call.carries token)).sum) := by
  induction calls generalizing rows with
  | nil => simp [effectsOf, run]
  | cons c calls ih =>
    have hstep := step_tokens hrows c token
    have hrun := ih (step_spec hrows c).keyed
    rw [effectsOf, List.map_cons, List.map_cons, List.sum_cons, List.sum_cons]
    show _ + holders token (run (step rows c) calls) ≤ _
    omega

end Outbox

end ZoidbergChain
