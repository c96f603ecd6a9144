import ZoidbergChain.NativeLifecycle.Model

/-!
# One write

What `upsert` does to the tables when it raises nothing.

- `trail` numbers the states that a transaction went through, and `auditOf` are the audit rows
  of one id; `Sound` says that they agree, with the row's state last.
- `upsert_ok` is the write of a `Writable` record, `upsert_frame` what any write leaves alone,
  `upsert_same` the write of what is there, and `not_upsert_removed` a write of a record whose
  audit rows have outlived its row.
-/

namespace ZoidbergChain

open Python

namespace NativeLifecycle

/-! ## Complete records -/

/-- What every record of the ledger has. -/
structure NativeRecord.Complete (r : NativeRecord) : Prop where
  id : r.id ≠ ""
  sender : normalize r.fromAddress ≠ ""
  nonce : strip r.nonce ≠ ""
  timestamp : r.timestamp ≠ ""

/-- The row of a complete record. -/
def NativeRecord.row (r : NativeRecord) : Row := columns "" r

/-- The account's place that an active record takes. -/
def NativeRecord.slot (r : NativeRecord) : String × String :=
  (normalize r.fromAddress, strip r.nonce)

theorem columns_eq {r : NativeRecord} (hr : r.Complete) (clock : String) :
    columns clock r = r.row := by
  have htime : ∀ other, orText (some r.timestamp) other = r.timestamp := by
    intro other
    have hne : (r.timestamp != "") = true := by simpa using hr.timestamp
    simp [orText, Option.filter, hne]
  unfold NativeRecord.row columns
  rw [htime, htime]

theorem nativeRecordValues_ok {r : NativeRecord} (hr : r.Complete) (clock : String) :
    nativeRecordValues clock r = .ok r.row := by
  rw [nativeRecordValues, require, if_pos ⟨hr.id, hr.sender, hr.nonce⟩, columns_eq hr]
  rfl

theorem slot_eq_of_payload {q r : NativeRecord} (h : q.immutablePayload = r.immutablePayload) :
    q.slot = r.slot := by
  have hfrom : q.fromAddress = r.fromAddress := congrArg ImmutablePayload.fromAddress h
  have hnonce : q.nonce = r.nonce := congrArg ImmutablePayload.nonce h
  rw [NativeRecord.slot, hfrom, hnonce]
  rfl

/-! ## Trails -/

/-- The states of a transaction as numbered steps. -/
def trail (start : Option LifecycleState) (n : Nat) :
    List LifecycleState → List (Nat × Option LifecycleState × LifecycleState)
  | [] => []
  | s :: rest => (n, start, s) :: trail (some s) (n + 1) rest

theorem trail_concat (start : Option LifecycleState) (n : Nat) (states : List LifecycleState)
    (s : LifecycleState) : trail start n (states ++ [s]) =
      trail start n states ++ [(n + states.length, states.getLast?.or start, s)] := by
  induction states generalizing start n with
  | nil => rfl
  | cons x states ih =>
    have hlast : (x :: states).getLast?.or start = states.getLast?.or (some x) := by
      rw [List.getLast?_cons]
      cases states.getLast? <;> rfl
    rw [List.cons_append, trail, ih, trail, hlast, List.length_cons, Nat.add_assoc, Nat.add_comm 1]
    rfl

theorem trail_eq_nil {start : Option LifecycleState} {n : Nat} {states : List LifecycleState} :
    trail start n states = [] ↔ states = [] := by
  cases states <;> simp [trail]

/-- The greatest number of a trail is its length. -/
theorem foldr_max_trail (start : Option LifecycleState) (n : Nat)
    (states : List LifecycleState) (h : states ≠ []) :
    ((trail start n states).map Prod.fst).foldr max 0 + 1 = n + states.length := by
  induction states generalizing start n with
  | nil => exact absurd rfl h
  | cons s states ih =>
    by_cases hs : states = []
    · subst hs
      simp [trail]
    · have := ih (some s) (n + 1) hs
      simp only [trail, List.map_cons, List.foldr_cons, List.length_cons]
      omega

/-- The audit rows of the id, by number. -/
def auditOf (audit : List AuditRow) (id : String) :
    List (Nat × Option LifecycleState × LifecycleState) :=
  (audit.filter fun a => a.txId = id).map fun a => (a.sequence, a.fromState, a.toState)

theorem auditOf_concat (audit : List AuditRow) (a : AuditRow) :
    auditOf (audit ++ [a]) a.txId =
      auditOf audit a.txId ++ [(a.sequence, a.fromState, a.toState)] := by
  simp [auditOf, List.filter_append]

theorem auditOf_concat_of_ne {audit : List AuditRow} {a : AuditRow} {id : String}
    (h : id ≠ a.txId) : auditOf (audit ++ [a]) id = auditOf audit id := by
  simp [auditOf, List.filter_append, Ne.symm h]

theorem nextSequence_eq (audit : List AuditRow) (id : String) :
    nextSequence audit id = ((auditOf audit id).map Prod.fst).foldr max 0 + 1 := by
  simp only [nextSequence, auditOf, List.map_map]
  rfl

theorem mem_auditOf {audit : List AuditRow} {b : AuditRow} (hb : b ∈ audit) :
    (b.sequence, b.fromState, b.toState) ∈ auditOf audit b.txId :=
  List.mem_map_of_mem (f := fun a : AuditRow => (a.sequence, a.fromState, a.toState))
    (List.mem_filter.mpr ⟨hb, decide_eq_true rfl⟩)

theorem lt_of_mem_foldr_max {l : List Nat} {x : Nat} (h : x ∈ l) : x ≤ l.foldr max 0 := by
  induction l with
  | nil => cases h
  | cons y l ih =>
    rw [List.foldr_cons]
    obtain rfl | h := List.mem_cons.mp h
    · exact Nat.le_max_left ..
    · exact Nat.le_trans (ih h) (Nat.le_max_right ..)

/-- The next number is free. -/
theorem insertAudit_next {audit : List AuditRow} {a : AuditRow}
    (h : a.sequence = nextSequence audit a.txId) : insertAudit audit a = .ok (audit ++ [a]) := by
  rw [insertAudit, require, if_pos]
  · rfl
  · intro b hb hid heq
    have hmem : b.sequence ∈ (auditOf audit a.txId).map Prod.fst :=
      List.mem_map_of_mem (hid ▸ mem_auditOf hb)
    have hle := lt_of_mem_foldr_max hmem
    rw [heq, h, nextSequence_eq] at hle
    omega

/-! ## Sound tables -/

/-- The audit rows of every id form a trail, which ends in the state of its row; `seen` are the
ids that have audit rows. -/
structure Sound (t : Tables) (seen : List String) : Prop where
  keys : t.records.keys.Nodup
  trails : ∀ id, ∃ states, auditOf t.audit id = trail none 1 states ∧
    ∀ row, t.records.get? id = some row → states.getLast? = some row.state
  seen : ∀ id, auditOf t.audit id ≠ [] ↔ id ∈ seen

theorem sound_empty : Sound { records := [], audit := [] } [] where
  keys := List.nodup_nil
  trails _ := ⟨[], rfl, fun _ hrow => by cases hrow⟩
  seen _ := by simp [auditOf]

theorem Sound.keep {t : Tables} {seen : List String} (h : Sound t seen) (p : String → Bool) :
    Sound (t.keep p) seen where
  keys := h.keys.sublist (List.Sublist.map _ (List.filter_sublist ..))
  trails id := by
    obtain ⟨states, hstates, hlast⟩ := h.trails id
    refine ⟨states, hstates, fun row hrow => hlast row ?_⟩
    have hfilter := Table.get?_filter t.records p id
    show Table.get? t.records id = some row
    rw [show Table.get? (t.keep p).records id = _ from hfilter] at hrow
    split at hrow
    · exact hrow
    · cases hrow
  seen := h.seen

/-- No other active row has the slot of the record. -/
def Free (records : Table String Row) (r : NativeRecord) : Prop :=
  r.status.isActive = true → ∀ e ∈ records, e.2.state.isActive = true →
    (e.2.sender, e.2.nonce) = r.slot → e.1 = r.id

theorem requireFreeNonce_ok {records : Table String Row} {r : NativeRecord}
    (h : Free records r) : requireFreeNonce records r.row = .ok () := by
  rw [requireFreeNonce, require, if_pos]
  intro hactive e he hstate hsender hnonce
  exact h hactive e he hstate (Prod.ext hsender hnonce)

/-- A record that can be written: its row allows the change, or it is new to the audit table. -/
structure Writable (t : Tables) (r : NativeRecord) : Prop where
  complete : r.Complete
  free : Free t.records r
  known : ∀ old, t.records.get? r.id = some old →
    old.immutablePayload = r.immutablePayload ∧ allowsTransition old.state r.status = true
  new : t.records.get? r.id = none → auditOf t.audit r.id = []

/-- The tables after a write of `r`. -/
structure Written (t : Tables) (r : NativeRecord) (t' : Tables) : Prop where
  records : t'.records = t.records.set r.id r.row
  others : ∀ id, id ≠ r.id → auditOf t'.audit id = auditOf t.audit id
  trails : ∃ states, auditOf t'.audit r.id = trail none 1 states ∧
    states.getLast? = some r.status

theorem Written.sound {t t' : Tables} {r : NativeRecord} {seen : List String}
    (h : Written t r t') (ht : Sound t seen) : Sound t' (r.id :: seen) where
  keys := by
    rw [h.records]
    exact Table.keys_set_nodup ht.keys
  trails id := by
    by_cases hid : id = r.id
    · subst hid
      obtain ⟨states, hstates, hlast⟩ := h.trails
      refine ⟨states, hstates, fun row hrow => ?_⟩
      rw [h.records, Table.get?_set_self] at hrow
      rw [hlast, ← Option.some.inj hrow]
      rfl
    · obtain ⟨states, hstates, hlast⟩ := ht.trails id
      refine ⟨states, (h.others id hid).trans hstates, fun row hrow => hlast row ?_⟩
      rwa [h.records, Table.get?_set_of_ne (Ne.symm hid)] at hrow
  seen id := by
    by_cases hid : id = r.id
    · subst hid
      obtain ⟨states, hstates, hlast⟩ := h.trails
      refine iff_of_true ?_ (List.mem_cons_self ..)
      rw [hstates, Ne, trail_eq_nil]
      rintro rfl
      cases hlast
    · rw [h.others id hid, ht.seen id, List.mem_cons, or_iff_right hid]

/-- The first audit row of a record. -/
def firstAudit (r : NativeRecord) : AuditRow :=
  { txId := r.id, sequence := 1, fromState := none, toState := r.status
    transitionedAt := r.row.createdAt, rejectionReason := r.rejectionReason }

/-- The audit row of a change of state. -/
def nextAudit (audit : List AuditRow) (old : LifecycleState) (r : NativeRecord) : AuditRow :=
  { txId := r.id, sequence := nextSequence audit r.id, fromState := some old, toState := r.status
    transitionedAt := r.row.updatedAt, rejectionReason := r.rejectionReason }

theorem upsert_of_none {t t' : Tables} {r : NativeRecord} (hr : r.Complete)
    (hget : t.records.get? r.id = none) (clock : String) :
    upsert clock t r = .ok t' ↔ requireFreeNonce t.records r.row = .ok () ∧
      ∃ audit, insertAudit t.audit (firstAudit r) = .ok audit ∧
        { records := t.records.set r.id r.row, audit } = t' := by
  have hrow : r.row.txId = r.id := rfl
  simp only [upsert, nativeRecordValues_ok hr, bind_eq_ok, Except.ok.injEq, exists_eq_left', hrow,
    hget]
  constructor
  · rintro ⟨⟨⟩, hfree, audit, haudit, rfl⟩
    exact ⟨hfree, audit, haudit, rfl⟩
  · rintro ⟨hfree, audit, haudit, rfl⟩
    exact ⟨(), hfree, audit, haudit, rfl⟩

theorem upsert_of_some {t t' : Tables} {r : NativeRecord} {old : Row} (hr : r.Complete)
    (hget : t.records.get? r.id = some old) (clock : String) :
    upsert clock t r = .ok t' ↔ old.immutablePayload = r.immutablePayload ∧
      allowsTransition old.state r.status = true ∧ requireFreeNonce t.records r.row = .ok () ∧
      ((old.state = r.status ∧ { t with records := t.records.set r.id r.row } = t') ∨
        old.state ≠ r.status ∧ ∃ audit, insertAudit t.audit (nextAudit t.audit old.state r) =
          .ok audit ∧ { records := t.records.set r.id r.row, audit } = t') := by
  have hrow : r.row.txId = r.id := rfl
  have hsigned : r.row.immutablePayload = r.immutablePayload := rfl
  have hstate : r.row.state = r.status := rfl
  simp only [upsert, nativeRecordValues_ok hr, bind_eq_ok, Except.ok.injEq, exists_eq_left', hrow,
    hget, hsigned, hstate, require_eq_ok, guardAllows_eq]
  by_cases h : old.state = r.status
  · simp only [if_pos h, Except.ok.injEq]
    constructor
    · rintro ⟨⟨⟩, hpayload, ⟨⟩, hallowed, ⟨⟩, hfree, rfl⟩
      exact ⟨hpayload, hallowed, hfree, Or.inl ⟨h, rfl⟩⟩
    · rintro ⟨hpayload, hallowed, hfree, ⟨-, rfl⟩ | ⟨hne, -⟩⟩
      · exact ⟨(), hpayload, (), hallowed, (), hfree, rfl⟩
      · exact absurd h hne
  · simp only [if_neg h, bind_eq_ok, Except.ok.injEq]
    constructor
    · rintro ⟨⟨⟩, hpayload, ⟨⟩, hallowed, ⟨⟩, hfree, audit, haudit, rfl⟩
      exact ⟨hpayload, hallowed, hfree, Or.inr ⟨h, audit, haudit, rfl⟩⟩
    · rintro ⟨hpayload, hallowed, hfree, ⟨heq, -⟩ | ⟨-, audit, haudit, rfl⟩⟩
      · exact absurd heq h
      · exact ⟨(), hpayload, (), hallowed, (), hfree, audit, haudit, rfl⟩

/-- A writable record is written. -/
theorem upsert_ok {t : Tables} {seen : List String} (ht : Sound t seen) {r : NativeRecord}
    (hr : Writable t r) (clock : String) :
    ∃ t', upsert clock t r = .ok t' ∧ Written t r t' := by
  obtain ⟨states, hstates, hlast⟩ := ht.trails r.id
  have hfree := requireFreeNonce_ok hr.free
  cases hget : t.records.get? r.id with
  | none =>
    have hempty := hr.new hget
    have hinsert : insertAudit t.audit (firstAudit r) = .ok (t.audit ++ [firstAudit r]) := by
      refine insertAudit_next ?_
      show 1 = nextSequence t.audit r.id
      rw [nextSequence_eq, hempty]
      rfl
    refine ⟨_, (upsert_of_none hr.complete hget clock).mpr ⟨hfree, _, hinsert, rfl⟩, rfl,
      fun id hid => auditOf_concat_of_ne hid, [r.status], ?_, rfl⟩
    refine (auditOf_concat t.audit (firstAudit r)).trans ?_
    show auditOf t.audit r.id ++ _ = _
    rw [hempty]
    rfl
  | some old =>
    obtain ⟨hsigned, hallowed⟩ := hr.known old hget
    have hlast := hlast old hget
    have hne : states ≠ [] := by
      rintro rfl
      cases hlast
    by_cases hstate : old.state = r.status
    · exact ⟨_, (upsert_of_some hr.complete hget clock).mpr
        ⟨hsigned, hallowed, hfree, Or.inl ⟨hstate, rfl⟩⟩, rfl, fun _ _ => rfl, states, hstates,
        hlast.trans (congrArg some hstate)⟩
    · have hinsert : insertAudit t.audit (nextAudit t.audit old.state r) =
          .ok (t.audit ++ [nextAudit t.audit old.state r]) := insertAudit_next rfl
      refine ⟨_, (upsert_of_some hr.complete hget clock).mpr
        ⟨hsigned, hallowed, hfree, Or.inr ⟨hstate, _, hinsert, rfl⟩⟩, rfl,
        fun id hid => auditOf_concat_of_ne hid, states ++ [r.status], ?_, by simp⟩
      refine (auditOf_concat t.audit (nextAudit t.audit old.state r)).trans ?_
      show auditOf t.audit r.id ++ [(nextSequence t.audit r.id, some old.state, r.status)] = _
      rw [trail_concat, hlast, nextSequence_eq, hstates, foldr_max_trail none 1 states hne]
      rfl

/-! ## Any write -/

theorem insertAudit_eq_ok {audit audit' : List AuditRow} {a : AuditRow} :
    insertAudit audit a = .ok audit' ↔
      (∀ b ∈ audit, b.txId = a.txId → b.sequence ≠ a.sequence) ∧ audit ++ [a] = audit' := by
  simp only [insertAudit, bind_eq_ok, require_eq_ok, Except.ok.injEq]
  constructor
  · rintro ⟨⟨⟩, hfree, h⟩
    exact ⟨hfree, h⟩
  · rintro ⟨hfree, h⟩
    exact ⟨(), hfree, h⟩

/-- A write leaves the other ids alone. -/
theorem upsert_frame {t t' : Tables} {r : NativeRecord} (hr : r.Complete) {clock : String}
    (h : upsert clock t r = .ok t') {id : String} (hid : id ≠ r.id) :
    t'.records.get? id = t.records.get? id ∧ auditOf t'.audit id = auditOf t.audit id := by
  have hset : (t.records.set r.id r.row).get? id = t.records.get? id :=
    Table.get?_set_of_ne (Ne.symm hid)
  have haudit : ∀ a : AuditRow, a.txId = r.id →
      auditOf (t.audit ++ [a]) id = auditOf t.audit id :=
    fun a ha => auditOf_concat_of_ne (ha ▸ hid)
  cases hget : t.records.get? r.id with
  | none =>
    obtain ⟨-, audit, hinsert, rfl⟩ := (upsert_of_none hr hget clock).mp h
    obtain ⟨-, rfl⟩ := insertAudit_eq_ok.mp hinsert
    exact ⟨hset, haudit _ rfl⟩
  | some old =>
    obtain ⟨-, -, -, ⟨-, rfl⟩ | ⟨-, audit, hinsert, rfl⟩⟩ := (upsert_of_some hr hget clock).mp h
    · exact ⟨hset, rfl⟩
    · obtain ⟨-, rfl⟩ := insertAudit_eq_ok.mp hinsert
      exact ⟨hset, haudit _ rfl⟩

/-- The write of what is there changes nothing. -/
theorem upsert_same {t t' : Tables} {r : NativeRecord} (hr : r.Complete) {clock : String}
    (hget : t.records.get? r.id = some r.row) (h : upsert clock t r = .ok t') : t' = t := by
  obtain ⟨-, -, -, ⟨-, rfl⟩ | ⟨hne, -⟩⟩ := (upsert_of_some hr hget clock).mp h
  · rw [Table.set_of_get? hget]
  · exact absurd rfl hne

/-- An id with audit rows has the first one. -/
theorem Sound.first_mem {t : Tables} {seen : List String} (ht : Sound t seen) {id : String}
    (h : id ∈ seen) : ∃ s, (1, none, s) ∈ auditOf t.audit id := by
  obtain ⟨states, hstates, -⟩ := ht.trails id
  cases states with
  | nil => exact absurd hstates ((ht.seen id).mpr h)
  | cons s states =>
    refine ⟨s, ?_⟩
    rw [hstates]
    exact List.mem_cons_self ..

/-- A record whose row is gone and whose audit rows are not cannot be written. -/
theorem not_upsert_removed {t t' : Tables} {r : NativeRecord} (hr : r.Complete)
    (hget : t.records.get? r.id = none) {s : LifecycleState}
    (haudit : (1, none, s) ∈ auditOf t.audit r.id) (clock : String) :
    upsert clock t r ≠ .ok t' := by
  intro h
  obtain ⟨-, audit, hinsert, -⟩ := (upsert_of_none hr hget clock).mp h
  obtain ⟨hfree, -⟩ := insertAudit_eq_ok.mp hinsert
  obtain ⟨b, hb, hbeq⟩ := List.mem_map.mp haudit
  obtain ⟨hb, hid⟩ := List.mem_filter.mp hb
  exact hfree b hb (of_decide_eq_true hid) (congrArg Prod.fst hbeq)

end NativeLifecycle

end ZoidbergChain
