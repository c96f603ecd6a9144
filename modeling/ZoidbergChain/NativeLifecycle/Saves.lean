import ZoidbergChain.NativeLifecycle.Audit

/-!
# Whole-document saves

When a run of saves keeps the tables in step with the document.

- `LegalChange` is what the document promises from one save to the next, `InStep` what the
  tables then have to be.
- `writes_ok` writes any list of writable records, `writeChanged_ok` the changed records of a
  legal change, inactive before active.
- `synchronize_ok` is a save on either path, with the same tables, and `saves_inStep` any run.

A record that was removed and comes back is not new to the audit table, whose rows nobody
deletes: the save raises (`readmission_raises`). That is one part of `Admissible`; the other is
the number of parameters that SQLite binds.
-/

namespace ZoidbergChain

open Python

namespace NativeLifecycle

/-! ## Legal changes -/

/-- A list of records that a save may be given. -/
structure LegalTarget (target : List NativeRecord) : Prop where
  complete : ∀ r ∈ target, r.Complete
  distinct : (target.map NativeRecord.id).Nodup
  oneActive : ∀ q ∈ target, ∀ r ∈ target, q.status.isActive = true → r.status.isActive = true →
    q.slot = r.slot → q.id = r.id

/-- A change of the document: records that stay keep their signed payload and change their
status as the lifecycle service allows. -/
structure LegalChange (previous target : List NativeRecord) : Prop extends
    LegalTarget target where
  stays : ∀ q ∈ previous, ∀ r ∈ target, q.id = r.id →
    q.immutablePayload = r.immutablePayload ∧ allowsTransition q.status r.status = true

/-- The tables are those of the document: its rows, and audit rows that are numbered from one,
chained, and end in the current status. -/
structure InStep (t : Tables) (target : List NativeRecord) : Prop where
  keys : t.records.keys.Nodup
  rows : ∀ id row, (id, row) ∈ t.records ↔ ∃ r ∈ target, r.id = id ∧ r.row = row
  audit : ∀ id, ∃ states, auditOf t.audit id = trail none 1 states ∧
    ∀ r ∈ target, r.id = id → states.getLast? = some r.status

/-- The rows of the table are the rows of the records. -/
def Reflects (t : Tables) (target : List NativeRecord) : Prop :=
  ∀ id row, t.records.get? id = some row ↔ ∃ r ∈ target, r.id = id ∧ r.row = row

/-! ## Writing a list -/

theorem eq_of_id {target : List NativeRecord} (h : (target.map NativeRecord.id).Nodup)
    {q r : NativeRecord} (hq : q ∈ target) (hr : r ∈ target) (hid : q.id = r.id) : q = r :=
  List.inj_on_of_nodup_map h hq hr hid

theorem get?_written {t t' : Tables} {r : NativeRecord} (h : Written t r t') (id : String) :
    t'.records.get? id = if r.id = id then some r.row else t.records.get? id := by
  rw [h.records, Table.get?_set]

theorem Writable.written {t t' : Tables} {q r : NativeRecord} (hr : Writable t r)
    (h : Written t q t') (hid : q.id ≠ r.id)
    (hone : q.status.isActive = true → r.status.isActive = true → q.slot = r.slot → q.id = r.id) :
    Writable t' r where
  complete := hr.complete
  free hactive e he hstate hslot := by
    rw [h.records] at he
    obtain rfl | he := Table.mem_set he
    · exact hone hstate hactive hslot
    · exact hr.free hactive e he hstate hslot
  known old hold := hr.known old (by rwa [get?_written h, if_neg hid] at hold)
  new hnone := by
    rw [get?_written h, if_neg hid] at hnone
    rw [h.others r.id (Ne.symm hid), hr.new hnone]

/-- Writable records with distinct ids and slots are written in any order. -/
theorem writes_ok (clock : String) {rs : List NativeRecord} {t : Tables} {seen : List String}
    (ht : Sound t seen) (hdistinct : (rs.map NativeRecord.id).Nodup)
    (hone : ∀ q ∈ rs, ∀ r ∈ rs, q.status.isActive = true → r.status.isActive = true →
      q.slot = r.slot → q.id = r.id) (hrs : ∀ r ∈ rs, Writable t r) :
    ∃ t' seen', rs.foldlM (upsert clock) t = .ok t' ∧ Sound t' seen' ∧
      (∀ id, id ∈ seen' ↔ id ∈ rs.map NativeRecord.id ∨ id ∈ seen) ∧
      (∀ r ∈ rs, t'.records.get? r.id = some r.row) ∧
      ∀ id, id ∉ rs.map NativeRecord.id → t'.records.get? id = t.records.get? id ∧
        auditOf t'.audit id = auditOf t.audit id := by
  induction rs generalizing t seen with
  | nil => exact ⟨t, seen, rfl, ht, by simp, by simp, fun _ _ => ⟨rfl, rfl⟩⟩
  | cons r rs ih =>
    obtain ⟨hfresh, hdistinct⟩ := List.nodup_cons.mp hdistinct
    obtain ⟨t₁, hwrite, hwritten⟩ := upsert_ok ht (hrs r (List.mem_cons_self ..)) clock
    have hne : ∀ q ∈ rs, r.id ≠ q.id := fun q hq heq =>
      hfresh (heq ▸ List.mem_map_of_mem hq)
    obtain ⟨t', seen', hfold, hsound, hseen, hrows, hframe⟩ := ih (hwritten.sound ht) hdistinct
      (fun p hp q hq => hone p (List.mem_cons_of_mem _ hp) q (List.mem_cons_of_mem _ hq))
      fun q hq => (hrs q (List.mem_cons_of_mem _ hq)).written hwritten (hne q hq)
        (hone r (List.mem_cons_self ..) q (List.mem_cons_of_mem _ hq))
    refine ⟨t', seen', ?_, hsound, ?_, ?_, ?_⟩
    · rw [foldlM_cons_eq_ok]
      exact ⟨t₁, hwrite, hfold⟩
    · intro id
      rw [hseen, List.map_cons, List.mem_cons, List.mem_cons]
      tauto
    · rw [List.forall_mem_cons]
      refine ⟨?_, hrows⟩
      rw [(hframe r.id hfresh).1, get?_written hwritten, if_pos rfl]
    · intro id hid
      rw [List.map_cons, List.mem_cons, not_or] at hid
      obtain ⟨hget, haudit⟩ := hframe id hid.2
      refine ⟨hget.trans ?_, haudit.trans (hwritten.others id hid.1)⟩
      rw [get?_written hwritten, if_neg (Ne.symm hid.1)]

/-- The write of a list leaves the other ids alone. -/
theorem writes_frame {clock : String} {rs : List NativeRecord} {t t' : Tables}
    (hrs : ∀ r ∈ rs, r.Complete) (h : rs.foldlM (upsert clock) t = .ok t') {id : String}
    (hid : id ∉ rs.map NativeRecord.id) : t'.records.get? id = t.records.get? id ∧
      auditOf t'.audit id = auditOf t.audit id := by
  induction rs generalizing t with
  | nil =>
    obtain rfl := foldlM_nil_eq_ok.mp h
    exact ⟨rfl, rfl⟩
  | cons r rs ih =>
    obtain ⟨t₁, hwrite, hfold⟩ := foldlM_cons_eq_ok.mp h
    rw [List.map_cons, List.mem_cons, not_or] at hid
    obtain ⟨hget, haudit⟩ := upsert_frame (hrs r (List.mem_cons_self ..)) hwrite hid.1
    obtain ⟨hget', haudit'⟩ := ih (fun q hq => hrs q (List.mem_cons_of_mem _ hq)) hfold hid.2
    exact ⟨hget'.trans hget, haudit'.trans haudit⟩

/-- Records whose rows are there can be skipped. -/
theorem writes_filter {clock : String} {rs : List NativeRecord} {t t' : Tables}
    (hdistinct : (rs.map NativeRecord.id).Nodup) (hrs : ∀ r ∈ rs, r.Complete)
    {p : NativeRecord → Bool}
    (hp : ∀ r ∈ rs, p r = false → t.records.get? r.id = some r.row)
    (h : rs.foldlM (upsert clock) t = .ok t') :
    (rs.filter p).foldlM (upsert clock) t = .ok t' := by
  induction rs generalizing t with
  | nil => exact h
  | cons r rs ih =>
    obtain ⟨t₁, hwrite, hfold⟩ := foldlM_cons_eq_ok.mp h
    obtain ⟨hfresh, hdistinct⟩ := List.nodup_cons.mp hdistinct
    have hr := hrs r (List.mem_cons_self ..)
    have hkept : ∀ q ∈ rs, p q = false → t₁.records.get? q.id = some q.row := by
      intro q hq hpq
      have hne : q.id ≠ r.id := fun heq => hfresh (heq ▸ List.mem_map_of_mem hq)
      rw [(upsert_frame hr hwrite hne).1]
      exact hp q (List.mem_cons_of_mem _ hq) hpq
    have hrest := ih hdistinct (fun q hq => hrs q (List.mem_cons_of_mem _ hq)) hkept hfold
    rw [List.filter_cons]
    by_cases hpr : p r = true
    · rw [if_pos hpr, foldlM_cons_eq_ok]
      exact ⟨t₁, hwrite, hrest⟩
    · have hsame := upsert_same hr
        (hp r (List.mem_cons_self ..) (Bool.eq_false_iff.mpr hpr)) hwrite
      rwa [if_neg hpr, ← hsame]

/-- A record that comes back stops the write of its list. -/
theorem not_writes_removed {clock : String} {rs : List NativeRecord} {t t' : Tables}
    (hrs : ∀ r ∈ rs, r.Complete) (hdistinct : (rs.map NativeRecord.id).Nodup)
    {r : NativeRecord} (hr : r ∈ rs) (hget : t.records.get? r.id = none) {s : LifecycleState}
    (haudit : (1, none, s) ∈ auditOf t.audit r.id) : rs.foldlM (upsert clock) t ≠ .ok t' := by
  obtain ⟨before, after, rfl⟩ := List.append_of_mem hr
  intro h
  obtain ⟨t₁, hbefore, hrest⟩ := foldlM_append_eq_ok.mp h
  obtain ⟨t₂, hwrite, -⟩ := foldlM_cons_eq_ok.mp hrest
  have hfresh : r.id ∉ before.map NativeRecord.id := by
    rw [List.map_append, List.map_cons] at hdistinct
    exact fun hmem => (List.nodup_append.mp hdistinct).2.2 _ hmem _ (List.mem_cons_self ..) rfl
  obtain ⟨hget₁, haudit₁⟩ := writes_frame
    (fun q hq => hrs q (List.mem_append_left _ hq)) hbefore hfresh
  exact not_upsert_removed (hrs r hr) (hget₁.trans hget) (haudit₁ ▸ haudit) clock hwrite

/-! ## The changed records -/

/-- The write order of the changed records. -/
def writeOrder (changed : List NativeRecord) : List NativeRecord :=
  changed.filter (fun r => !r.status.isActive) ++ changed.filter fun r => r.status.isActive

theorem mem_writeOrder {changed : List NativeRecord} {r : NativeRecord} :
    r ∈ writeOrder changed ↔ r ∈ changed := by
  cases h : r.status.isActive <;> simp [writeOrder, h]

theorem writeOrder_filter (target : List NativeRecord) (p : NativeRecord → Bool) :
    writeOrder (target.filter p) = (writeOrder target).filter p := by
  simp [writeOrder, List.filter_append, Bool.and_comm]

theorem writeOrder_distinct {changed : List NativeRecord}
    (h : (changed.map NativeRecord.id).Nodup) :
    ((writeOrder changed).map NativeRecord.id).Nodup := by
  have hperm : (writeOrder changed).Perm changed := by
    have hsplit := List.filter_append_perm (fun r : NativeRecord => !r.status.isActive) changed
    simpa [writeOrder] using hsplit
  exact (hperm.map NativeRecord.id).nodup_iff.mpr h

/-- The tables of the previous document; `seen` are the ids of every earlier document. -/
structure Holds (t : Tables) (seen : List String) (previous : List NativeRecord) : Prop where
  sound : Sound t seen
  reflects : Reflects t previous
  legal : LegalTarget previous

/-- The tables of the previous document, before a legal change that brings nothing back. -/
structure Ready (t : Tables) (seen : List String) (previous target : List NativeRecord) : Prop
    extends Holds t seen previous where
  change : LegalChange previous target
  fresh : ∀ r ∈ target, r.id ∈ previous.map NativeRecord.id ∨ r.id ∉ seen

/-- The rows that stay. -/
def Tables.kept (t : Tables) (target : List NativeRecord) : Tables :=
  t.keep fun id => id ∈ target.map NativeRecord.id

theorem get?_kept (t : Tables) (target : List NativeRecord) (id : String) :
    (t.kept target).records.get? id =
      if id ∈ target.map NativeRecord.id then t.records.get? id else none := by
  have h := Table.get?_filter t.records (fun id => id ∈ target.map NativeRecord.id) id
  simpa [Tables.kept, Tables.keep] using h

/-- The rows before the write, against the records that will have them. -/
theorem kept_row {t : Tables} {seen : List String} {previous target : List NativeRecord}
    (h : Holds t seen previous) {id : String} {row : Row}
    (hrow : (t.kept target).records.get? id = some row) :
    ∃ q ∈ previous, ∃ r ∈ target, q.id = id ∧ r.id = id ∧ q.row = row := by
  rw [get?_kept] at hrow
  by_cases hid : id ∈ target.map NativeRecord.id
  · rw [if_pos hid] at hrow
    obtain ⟨q, hq, hqid, hqrow⟩ := (h.reflects id row).mp hrow
    obtain ⟨r, hr, hrid⟩ := List.mem_map.mp hid
    exact ⟨q, hq, r, hr, hqid, hrid, hqrow⟩
  · rw [if_neg hid] at hrow
    cases hrow

/-- A record is writable while every active row belongs to an active record of the document. -/
theorem writable_of_ready {t tk : Tables} {seen : List String} {previous target : List NativeRecord}
    (h : Ready t seen previous target) {r : NativeRecord} (hr : r ∈ target)
    (hget : tk.records.get? r.id = (t.kept target).records.get? r.id)
    (haudit : auditOf tk.audit r.id = auditOf t.audit r.id)
    (hactive : r.status.isActive = true → ∀ e ∈ tk.records, e.2.state.isActive = true →
      ∃ q ∈ target, q.id = e.1 ∧ q.status.isActive = true ∧ q.slot = (e.2.sender, e.2.nonce)) :
    Writable tk r where
  complete := h.change.complete r hr
  free hstatus e he hstate hslot := by
    obtain ⟨q, hq, hqid, hqactive, hqslot⟩ := hactive hstatus e he hstate
    exact hqid ▸ h.change.oneActive q hq r hr hqactive hstatus (hqslot.trans hslot)
  known old hold := by
    rw [hget] at hold
    obtain ⟨q, hq, r', hr', hqid, hrid, rfl⟩ := kept_row h.toHolds hold
    exact h.change.stays q hq r hr hqid
  new hnone := by
    rw [hget, get?_kept, if_pos (List.mem_map_of_mem hr)] at hnone
    rw [haudit]
    by_contra hne
    have hseen := (h.sound.seen r.id).mp hne
    obtain hprevious | hfresh := h.fresh r hr
    · obtain ⟨q, hq, hqid⟩ := List.mem_map.mp hprevious
      have := (h.reflects r.id q.row).mpr ⟨q, hq, hqid, rfl⟩
      rw [hnone] at this
      cases this
    · exact hfresh hseen

theorem row_slot {q : NativeRecord} : (q.row.sender, q.row.nonce) = q.slot := rfl

theorem mem_ids_of_filter {rs : List NativeRecord} {p : NativeRecord → Bool} {id : String}
    (h : id ∈ (rs.filter p).map NativeRecord.id) : id ∈ rs.map NativeRecord.id := by
  obtain ⟨r, hr, rfl⟩ := List.mem_map.mp h
  exact List.mem_map_of_mem (List.mem_of_mem_filter hr)

/-- Two parts of a list with distinct ids share none. -/
theorem notMem_ids_of_filter {target : List NativeRecord}
    (h : (target.map NativeRecord.id).Nodup) {p q : NativeRecord → Bool} {r : NativeRecord}
    (hr : r ∈ target) (hp : p r = false) :
    r.id ∉ ((target.filter q).filter p).map NativeRecord.id := by
  intro hmem
  obtain ⟨s, hs, hid⟩ := List.mem_map.mp hmem
  obtain ⟨hs, hps⟩ := List.mem_filter.mp hs
  obtain rfl := eq_of_id h (List.mem_of_mem_filter hs) hr hid
  rw [hp] at hps
  cases hps

/-- The changed records of a legal change are written: the inactive ones first, so that no
active record finds its slot taken. -/
theorem writeChanged_ok (clock : String) {t : Tables} {seen : List String}
    {previous target : List NativeRecord} (h : Ready t seen previous target)
    (p : NativeRecord → Bool)
    (hp : ∀ r ∈ target, p r = false → (t.kept target).records.get? r.id = some r.row) :
    ∃ t' seen', writeChanged clock (t.kept target) (target.filter p) = .ok t' ∧
      Sound t' seen' ∧ Reflects t' target ∧
      ∀ id, id ∈ seen' ↔ id ∈ (target.filter p).map NativeRecord.id ∨ id ∈ seen := by
  have hdistinct := h.change.distinct
  have hsub : ∀ q : NativeRecord → Bool,
      (((target.filter p).filter q).map NativeRecord.id).Nodup := fun q =>
    (hdistinct.sublist ((List.filter_sublist ..).map _)).sublist ((List.filter_sublist ..).map _)
  have hmem : ∀ {q : NativeRecord → Bool} {r : NativeRecord}, r ∈ (target.filter p).filter q →
      r ∈ target ∧ q r = true := fun hr =>
    ⟨List.mem_of_mem_filter (List.mem_of_mem_filter hr), List.of_mem_filter hr⟩
  have hkept : Sound (t.kept target) seen := h.sound.keep _
  -- the inactive records, which need no slot
  obtain ⟨t₁, seen₁, hfold₁, hsound₁, hseen₁, hrows₁, hframe₁⟩ := writes_ok clock
    hkept (hsub fun r => !r.status.isActive)
    (fun q hq r _ hactive => by
      have := (hmem hq).2
      rw [hactive] at this
      cases this)
    (fun r hr => writable_of_ready h (hmem hr).1 rfl rfl fun hactive => by
      have := (hmem hr).2
      rw [hactive] at this
      cases this)
  -- an active row now belongs to an active record
  have howner : ∀ e ∈ t₁.records, e.2.state.isActive = true →
      ∃ q ∈ target, q.id = e.1 ∧ q.status.isActive = true ∧
        q.slot = (e.2.sender, e.2.nonce) := by
    intro e he hstate
    have hget := Table.get?_of_mem hsound₁.keys he
    by_cases hid : e.1 ∈ (((target.filter p).filter fun r => !r.status.isActive)).map
        NativeRecord.id
    · obtain ⟨q, hq, hqid⟩ := List.mem_map.mp hid
      have hqrow := hrows₁ q hq
      rw [hqid, hget] at hqrow
      have hinactive := (hmem hq).2
      rw [Option.some.inj hqrow] at hstate
      rw [show q.status.isActive = true from hstate] at hinactive
      cases hinactive
    · rw [(hframe₁ e.1 hid).1] at hget
      obtain ⟨q, hq, r, hr, hqid, hrid, hqrow⟩ := kept_row h.toHolds hget
      have hslot : r.slot = (e.2.sender, e.2.nonce) := by
        rw [← hqrow]
        exact (slot_eq_of_payload (h.change.stays q hq r hr (hqid.trans hrid.symm)).1).symm
      refine ⟨r, hr, hrid, ?_, hslot⟩
      by_cases hpr : p r = true
      · by_contra hinactive
        refine hid (hrid ▸ List.mem_map_of_mem ?_)
        rw [List.mem_filter, List.mem_filter]
        exact ⟨⟨hr, hpr⟩, by simpa using hinactive⟩
      · have hrow := hp r hr (Bool.eq_false_iff.mpr hpr)
        rw [hrid, hget] at hrow
        rw [Option.some.inj hrow] at hstate
        exact hstate
  have hout : ∀ {q : NativeRecord → Bool} {r : NativeRecord}, r ∈ target → q r = false →
      r.id ∉ ((target.filter p).filter q).map NativeRecord.id := notMem_ids_of_filter hdistinct
  obtain ⟨t', seen', hfold, hsound, hseen, hrows, hframe⟩ := writes_ok clock hsound₁
    (hsub fun r => r.status.isActive)
    (fun q hq r hr => h.change.oneActive q (hmem hq).1 r (hmem hr).1)
    (fun r hr => by
      have hfresh := hout (q := fun r => !r.status.isActive) (hmem hr).1
        (by simpa using (hmem hr).2)
      exact writable_of_ready h (hmem hr).1 (hframe₁ _ hfresh).1 (hframe₁ _ hfresh).2
        fun _ => howner)
  have hrow : ∀ r ∈ target, t'.records.get? r.id = some r.row := by
    intro r hr
    by_cases hactive : r.status.isActive = true
    · by_cases hpr : p r = true
      · exact hrows r (List.mem_filter.mpr ⟨List.mem_filter.mpr ⟨hr, hpr⟩, hactive⟩)
      · have hrp : r.id ∉ (target.filter p).map NativeRecord.id := by
          have := notMem_ids_of_filter (q := fun _ => true) hdistinct hr
            (Bool.eq_false_iff.mpr hpr)
          simpa using this
        rw [(hframe r.id fun hm => hrp (mem_ids_of_filter hm)).1,
          (hframe₁ r.id fun hm => hrp (mem_ids_of_filter hm)).1]
        exact hp r hr (Bool.eq_false_iff.mpr hpr)
    · rw [(hframe r.id (hout hr (Bool.eq_false_iff.mpr hactive))).1]
      by_cases hpr : p r = true
      · refine hrows₁ r (List.mem_filter.mpr ⟨List.mem_filter.mpr ⟨hr, hpr⟩, ?_⟩)
        simpa using hactive
      · have hrp : r.id ∉ (target.filter p).map NativeRecord.id := by
          have := notMem_ids_of_filter (q := fun _ => true) hdistinct hr
            (Bool.eq_false_iff.mpr hpr)
          simpa using this
        rw [(hframe₁ r.id fun hm => hrp (mem_ids_of_filter hm)).1]
        exact hp r hr (Bool.eq_false_iff.mpr hpr)
  refine ⟨t', seen', ?_, hsound, ?_, ?_⟩
  · rw [writeChanged, foldlM_append_eq_ok]
    exact ⟨t₁, hfold₁, hfold⟩
  · intro id row
    constructor
    · intro hget
      by_cases hid : id ∈ target.map NativeRecord.id
      · obtain ⟨r, hr, rfl⟩ := List.mem_map.mp hid
        rw [hrow r hr] at hget
        exact ⟨r, hr, rfl, Option.some.inj hget⟩
      · have hnot : ∀ q : NativeRecord → Bool,
            id ∉ ((target.filter p).filter q).map NativeRecord.id := fun q hm =>
          hid (mem_ids_of_filter (mem_ids_of_filter hm))
        rw [(hframe id (hnot _)).1, (hframe₁ id (hnot _)).1, get?_kept, if_neg hid] at hget
        cases hget
    · rintro ⟨r, hr, rfl, rfl⟩
      exact hrow r hr
  · intro id
    rw [hseen, hseen₁, ← or_assoc]
    refine or_congr_left ?_
    rw [← List.mem_append, ← List.map_append]
    simp only [List.mem_map]
    refine exists_congr fun r => and_congr_left fun _ => ?_
    rw [List.mem_append, or_comm, ← List.mem_append]
    exact mem_writeOrder

/-! ## The two paths -/

theorem normalized_ok {f : NativeRecord → Py Unit} {rs a : List NativeRecord}
    (hcheck : ∀ r ∈ rs, f r = .ok ()) (h : ((a ++ rs).map NativeRecord.id).Nodup) :
    rs.foldlM (addNormalized f) a = .ok (a ++ rs) := by
  induction rs generalizing a with
  | nil => rw [List.append_nil]; rfl
  | cons r rs ih =>
    have hfind : a.find? (fun q => q.id = r.id) = none := by
      rw [List.find?_eq_none]
      intro q hq hid
      rw [List.map_append, List.nodup_append] at h
      exact h.2.2 q.id (List.mem_map_of_mem hq) r.id (by simp) (of_decide_eq_true hid)
    rw [foldlM_cons_eq_ok]
    refine ⟨a ++ [r], ?_, ?_⟩
    · rw [addNormalized, hcheck r (List.mem_cons_self ..), hfind]
      rfl
    · have happend : a ++ r :: rs = a ++ [r] ++ rs := List.append_cons ..
      rw [happend] at h ⊢
      exact ih (fun q hq => hcheck q (List.mem_cons_of_mem _ hq)) h

/-- The slow path writes every record. -/
theorem synchronizeSlow_eq {target : List NativeRecord} (h : LegalTarget target)
    (maxVariables : Nat) (clock : String) (t : Tables) :
    synchronizeSlow maxVariables clock t target =
      (require (target.length ≤ maxVariables) tooManyVariables >>= fun _ =>
        writeChanged clock (t.kept target) target) := by
  have hnormalized := normalized_ok (a := [])
    (f := fun r => do let _ ← nativeRecordValues clock r; .ok ())
    (fun r hr => by rw [nativeRecordValues_ok (h.complete r hr)]; rfl) h.distinct
  rw [synchronizeSlow, hnormalized]
  rfl

/-- The loaded records are the previous ones, in another order. -/
theorem load_perm {t : Tables} {seen : List String} {previous : List NativeRecord}
    (h : Holds t seen previous) : t.load.Perm previous := by
  have hload : t.load.Perm (t.records.map fun e => e.2.record) := by
    have hsort := List.mergeSort_perm t.records.values fun a b =>
      decide (toLex (a.createdAt, a.txId) ≤ toLex (b.createdAt, b.txId))
    have hmap := hsort.map Row.record
    rwa [Table.values, List.map_map] at hmap
  refine hload.trans ?_
  have hrow : ∀ e ∈ t.records, ∃ q ∈ previous, q.id = e.1 ∧ q.row = e.2 := fun e he =>
    (h.reflects e.1 e.2).mp (Table.get?_of_mem h.sound.keys he)
  have hids : (t.records.map fun e => e.2.record).map NativeRecord.id = t.records.keys := by
    rw [List.map_map]
    refine List.map_congr_left fun e he => ?_
    obtain ⟨q, -, hid, hrow⟩ := hrow e he
    show e.2.record.id = e.1
    rw [← hrow, ← hid]
    rfl
  have hnodup : (t.records.map fun e => e.2.record).Nodup :=
    List.Nodup.of_map NativeRecord.id (hids ▸ h.sound.keys)
  rw [List.perm_ext_iff_of_nodup hnodup (List.Nodup.of_map _ h.legal.distinct)]
  intro r
  constructor
  · intro hr
    obtain ⟨e, he, rfl⟩ := List.mem_map.mp hr
    obtain ⟨q, hq, -, hrow⟩ := hrow e he
    rw [← hrow]
    exact hq
  · intro hr
    have hget := (h.reflects r.id r.row).mpr ⟨r, hr, rfl, rfl⟩
    exact List.mem_map_of_mem (f := fun e : String × Row => e.2.record) (Table.mem_of_get? hget)

/-- The records that a save removes. -/
def removed (previous target : List NativeRecord) : List NativeRecord :=
  previous.filter fun q => q.id ∉ target.map NativeRecord.id

/-- The records that differ from the loaded ones. -/
def Tables.isChanged (t : Tables) (r : NativeRecord) : Bool :=
  t.load.reverse.find? (·.id = r.id) ≠ some r

theorem mem_of_not_isChanged {t : Tables} {seen : List String} {previous : List NativeRecord}
    (h : Holds t seen previous) {r : NativeRecord} (hr : t.isChanged r = false) :
    r ∈ previous := by
  have hfind : t.load.reverse.find? (·.id = r.id) = some r := by
    simpa [Tables.isChanged] using hr
  have hmem := List.mem_of_find?_eq_some hfind
  exact (load_perm h).mem_iff.mp (List.mem_reverse.mp hmem)

/-- The fast path writes the records that differ. -/
theorem synchronizeFast_eq {t : Tables} {seen : List String} {previous target : List NativeRecord}
    (h : Holds t seen previous) (htarget : LegalTarget target) (maxVariables : Nat)
    (clock : String) : synchronizeFast maxVariables clock t target t.load =
      (require ((removed previous target).length ≤ maxVariables) tooManyVariables >>= fun _ =>
        writeChanged clock (t.kept target) (target.filter t.isChanged)) := by
  have hnormalized := normalized_ok (a := [])
    (f := fun r => require (r.id ≠ "") incomplete)
    (fun r hr => by rw [require, if_pos (htarget.complete r hr).id]) htarget.distinct
  rw [List.nil_append] at hnormalized
  have hperm := load_perm h
  have hfilled : (t.load.map NativeRecord.id).filter (· != "") = t.load.map NativeRecord.id := by
    rw [List.filter_eq_self]
    intro id hid
    obtain ⟨r, hr, rfl⟩ := List.mem_map.mp hid
    simpa using (h.legal.complete r (hperm.mem_iff.mp hr)).id
  have hdistinct : (t.load.map NativeRecord.id).Nodup :=
    (hperm.map _).nodup_iff.mpr h.legal.distinct
  have hstale : ((t.load.map NativeRecord.id).filter (· != "")).dedup =
      t.load.map NativeRecord.id := by
    rw [hfilled, List.dedup_eq_self.mpr hdistinct]
  have hlength : ((t.load.map NativeRecord.id).filter fun id =>
      id ∉ target.map NativeRecord.id).length = (removed previous target).length := by
    rw [List.filter_map, List.length_map]
    exact (hperm.filter _).length_eq
  have hkeep : (t.keep fun id => id ∉ (t.load.map NativeRecord.id).filter fun id =>
      id ∉ target.map NativeRecord.id) = t.kept target := by
    unfold Tables.kept Tables.keep
    congr 1
    refine List.filter_congr fun e he => ?_
    have hid : e.1 ∈ t.load.map NativeRecord.id := by
      obtain ⟨q, hq, hqid, -⟩ := (h.reflects e.1 e.2).mp (Table.get?_of_mem h.sound.keys he)
      rw [← hqid]
      exact List.mem_map_of_mem (hperm.mem_iff.mpr hq)
    simp [List.mem_filter, -List.mem_map, hid]
  rw [synchronizeFast, hnormalized]
  show (do
    require (((((t.load.map NativeRecord.id).filter (· != "")).dedup.filter fun id =>
      id ∉ target.map NativeRecord.id)).length ≤ maxVariables) tooManyVariables
    writeChanged clock (t.keep fun id => id ∉ ((t.load.map NativeRecord.id).filter
      (· != "")).dedup.filter fun id => id ∉ target.map NativeRecord.id)
      (target.filter t.isChanged)) = _
  rw [hstale, hlength, hkeep]

/-- The statement of a save binds few enough parameters: the slow path one for each record, the
fast path one for each record that it removes. -/
def Save.Fits (maxVariables : Nat) (s : Save) (previous : List NativeRecord) : Prop :=
  if s.fast then (removed previous s.target).length ≤ maxVariables
  else s.target.length ≤ maxVariables

/-- The records that a save writes. -/
def Save.written (s : Save) (t : Tables) : List NativeRecord :=
  s.target.filter fun r => !s.fast || t.isChanged r

theorem apply_eq {t : Tables} {seen : List String} {previous : List NativeRecord} {s : Save}
    (h : Holds t seen previous) (htarget : LegalTarget s.target) (maxVariables : Nat)
    {t' : Tables} : s.apply maxVariables t = .ok t' ↔ s.Fits maxVariables previous ∧
      writeChanged s.clock (t.kept s.target) (s.written t) = .ok t' := by
  obtain ⟨fast, clock, target⟩ := s
  cases fast with
  | true =>
    show synchronizeFast maxVariables clock t target t.load = .ok t' ↔ _
    rw [synchronizeFast_eq h htarget, bind_eq_ok]
    simp [Save.Fits, Save.written, require_eq_ok]
  | false =>
    show synchronizeSlow maxVariables clock t target = .ok t' ↔ _
    rw [synchronizeSlow_eq htarget, bind_eq_ok]
    simp [Save.Fits, Save.written, require_eq_ok]

theorem get?_of_mem_previous {t : Tables} {seen : List String}
    {previous target : List NativeRecord} (h : Holds t seen previous) {r : NativeRecord}
    (hprevious : r ∈ previous) (htarget : r ∈ target) :
    (t.kept target).records.get? r.id = some r.row := by
  rw [get?_kept, if_pos (List.mem_map_of_mem htarget)]
  exact (h.reflects r.id r.row).mpr ⟨r, hprevious, rfl, rfl⟩

/-- A skipped record has its row. -/
theorem row_of_not_written {t : Tables} {seen : List String} {previous : List NativeRecord}
    (h : Holds t seen previous) {s : Save} {r : NativeRecord} (hr : r ∈ s.target)
    (hskip : (!s.fast || t.isChanged r) = false) :
    (t.kept s.target).records.get? r.id = some r.row := by
  rw [Bool.or_eq_false_iff] at hskip
  exact get?_of_mem_previous h (mem_of_not_isChanged h hskip.2) hr

theorem mem_seen_of_previous {t : Tables} {seen : List String} {previous : List NativeRecord}
    (h : Holds t seen previous) {r : NativeRecord} (hr : r ∈ previous) : r.id ∈ seen := by
  have hget := (h.reflects r.id r.row).mpr ⟨r, hr, rfl, rfl⟩
  obtain ⟨states, hstates, hlast⟩ := h.sound.trails r.id
  refine (h.sound.seen r.id).mp ?_
  rw [hstates, Ne, trail_eq_nil]
  rintro rfl
  cases hlast _ hget

/-- A save of a legal change that brings nothing back, on either path. -/
theorem apply_ok {maxVariables : Nat} {t : Tables} {seen : List String}
    {previous : List NativeRecord} {s : Save} (h : Ready t seen previous s.target)
    (hfits : s.Fits maxVariables previous) :
    ∃ t', s.apply maxVariables t = .ok t' ∧ Holds t' (s.target.map NativeRecord.id ++ seen)
      s.target := by
  obtain ⟨t', seen', hwrite, hsound, hreflects, hseen⟩ := writeChanged_ok s.clock h
    (fun r => !s.fast || t.isChanged r) fun r hr => row_of_not_written h.toHolds hr
  refine ⟨t', (apply_eq h.toHolds h.change.toLegalTarget maxVariables).mpr ⟨hfits, hwrite⟩, ?_,
    hreflects, h.change.toLegalTarget⟩
  refine ⟨hsound.keys, hsound.trails, fun id => (hsound.seen id).trans ?_⟩
  rw [hseen, List.mem_append]
  constructor
  · exact Or.imp_left mem_ids_of_filter
  · rintro (hid | hid)
    · obtain ⟨r, hr, rfl⟩ := List.mem_map.mp hid
      by_cases hwritten : (!s.fast || t.isChanged r) = true
      · exact Or.inl (List.mem_map_of_mem (List.mem_filter.mpr ⟨hr, hwritten⟩))
      · have hskip := Bool.eq_false_iff.mpr hwritten
        rw [Bool.or_eq_false_iff] at hskip
        exact Or.inr (mem_seen_of_previous h.toHolds (mem_of_not_isChanged h.toHolds hskip.2))
    · exact Or.inr hid

/-- A save that brings a removed record back raises. -/
theorem not_apply_removed {maxVariables : Nat} {t t' : Tables} {seen : List String}
    {previous : List NativeRecord} {s : Save} (h : Holds t seen previous)
    (htarget : LegalTarget s.target) {r : NativeRecord} (hr : r ∈ s.target)
    (hnew : r.id ∉ previous.map NativeRecord.id) (hseen : r.id ∈ seen) :
    s.apply maxVariables t ≠ .ok t' := by
  intro happly
  obtain ⟨-, hwrite⟩ := (apply_eq h htarget maxVariables).mp happly
  have hnone : (t.kept s.target).records.get? r.id = none := by
    rw [get?_kept, if_pos (List.mem_map_of_mem hr)]
    by_contra hne
    obtain ⟨row, hrow⟩ := Option.ne_none_iff_exists'.mp hne
    obtain ⟨q, hq, hqid, -⟩ := (h.reflects r.id row).mp hrow
    exact hnew (List.mem_map.mpr ⟨q, hq, hqid⟩)
  have hwritten : r ∈ writeOrder (s.written t) := by
    rw [mem_writeOrder]
    refine List.mem_filter.mpr ⟨hr, ?_⟩
    by_contra hskip
    have hrow := row_of_not_written h hr (Bool.eq_false_iff.mpr hskip)
    rw [hnone] at hrow
    cases hrow
  obtain ⟨state, hfirst⟩ := h.sound.first_mem hseen
  have hdistinct : ((s.written t).map NativeRecord.id).Nodup :=
    htarget.distinct.sublist ((List.filter_sublist ..).map _)
  refine not_writes_removed (fun q hq => ?_) (writeOrder_distinct hdistinct) hwritten hnone hfirst
    hwrite
  exact htarget.complete q (List.mem_of_mem_filter (mem_writeOrder.mp hq))

/-! ## Runs -/

/-- The document of every save is a legal change of the one before. -/
def LegalRun : List NativeRecord → List Save → Prop
  | _, [] => True
  | previous, s :: saves => LegalChange previous s.target ∧ LegalRun s.target saves

/-- No save brings a removed record back, and every save binds few enough parameters. -/
def Admissible (maxVariables : Nat) : List String → List NativeRecord → List Save → Prop
  | _, _, [] => True
  | seen, previous, s :: saves =>
    ((∀ r ∈ s.target, r.id ∈ previous.map NativeRecord.id ∨ r.id ∉ seen) ∧
      s.Fits maxVariables previous) ∧
    Admissible maxVariables (s.target.map NativeRecord.id ++ seen) s.target saves

/-- The records of the last save. -/
def lastTarget (previous : List NativeRecord) (saves : List Save) : List NativeRecord :=
  saves.foldl (fun _ s => s.target) previous

theorem holds_empty : Holds {} [] [] where
  sound := sound_empty
  reflects id row := by
    constructor
    · intro h
      cases h
    · rintro ⟨r, hr, -⟩
      cases hr
  legal := ⟨by simp, List.nodup_nil, by simp⟩

theorem run_ok_iff {maxVariables : Nat} {t : Tables} {seen : List String}
    {previous : List NativeRecord} (h : Holds t seen previous) {saves : List Save}
    (hlegal : LegalRun previous saves) :
    (∃ t', run maxVariables t saves = .ok t') ↔ Admissible maxVariables seen previous saves := by
  induction saves generalizing t seen previous with
  | nil => exact ⟨fun _ => trivial, fun _ => ⟨t, rfl⟩⟩
  | cons s saves ih =>
    obtain ⟨hchange, hlegal⟩ := hlegal
    constructor
    · rintro ⟨t', hrun⟩
      obtain ⟨t₁, happly, hrest⟩ := foldlM_cons_eq_ok.mp hrun
      have hfits := ((apply_eq h hchange.toLegalTarget maxVariables).mp happly).1
      have hfresh : ∀ r ∈ s.target, r.id ∈ previous.map NativeRecord.id ∨ r.id ∉ seen := by
        intro r hr
        by_contra hback
        rw [not_or, not_not] at hback
        exact not_apply_removed h hchange.toLegalTarget hr hback.1 hback.2 happly
      obtain ⟨t₂, happly₂, hholds⟩ := apply_ok ⟨h, hchange, hfresh⟩ hfits
      obtain rfl : t₁ = t₂ := Except.ok.inj (happly.symm.trans happly₂)
      exact ⟨⟨hfresh, hfits⟩, (ih hholds hlegal).mp ⟨t', hrest⟩⟩
    · rintro ⟨⟨hfresh, hfits⟩, hadmissible⟩
      obtain ⟨t₁, happly, hholds⟩ := apply_ok ⟨h, hchange, hfresh⟩ hfits
      obtain ⟨t', hrest⟩ := (ih hholds hlegal).mpr hadmissible
      exact ⟨t', foldlM_cons_eq_ok.mpr ⟨t₁, happly, hrest⟩⟩

theorem run_holds {maxVariables : Nat} {t t' : Tables} {seen : List String}
    {previous : List NativeRecord} (h : Holds t seen previous) {saves : List Save}
    (hlegal : LegalRun previous saves) (hrun : run maxVariables t saves = .ok t') :
    ∃ seen', Holds t' seen' (lastTarget previous saves) := by
  induction saves generalizing t seen previous with
  | nil =>
    obtain rfl := foldlM_nil_eq_ok.mp hrun
    exact ⟨seen, h⟩
  | cons s saves ih =>
    have hadmissible := (run_ok_iff h hlegal).mp ⟨t', hrun⟩
    obtain ⟨t₁, happly, hholds⟩ := apply_ok ⟨h, hlegal.1, hadmissible.1.1⟩ hadmissible.1.2
    obtain ⟨t₂, happly₂, hrest⟩ := foldlM_cons_eq_ok.mp hrun
    obtain rfl : t₁ = t₂ := Except.ok.inj (happly.symm.trans happly₂)
    exact ih hholds hlegal.2 hrest

theorem inStep_of_holds {t : Tables} {seen : List String} {target : List NativeRecord}
    (h : Holds t seen target) : InStep t target where
  keys := h.sound.keys
  rows id row := (Table.mem_iff_get? h.sound.keys).trans (h.reflects id row)
  audit id := by
    obtain ⟨states, hstates, hlast⟩ := h.sound.trails id
    refine ⟨states, hstates, ?_⟩
    rintro r hr rfl
    exact hlast r.row ((h.reflects r.id r.row).mpr ⟨r, hr, rfl, rfl⟩)

theorem writes_clock {rs : List NativeRecord} (hrs : ∀ r ∈ rs, r.Complete)
    (clock clock' : String) (t : Tables) :
    rs.foldlM (upsert clock) t = rs.foldlM (upsert clock') t := by
  induction rs generalizing t with
  | nil => rfl
  | cons r rs ih =>
    have hr := hrs r (List.mem_cons_self ..)
    have hwrite : upsert clock t r = upsert clock' t r := by
      rw [upsert, upsert, nativeRecordValues_ok hr, nativeRecordValues_ok hr]
    rw [List.foldlM_cons, List.foldlM_cons, hwrite]
    exact bind_congr fun u => ih (fun q hq => hrs q (List.mem_cons_of_mem _ hq)) u

/-- The two paths leave the same tables. -/
theorem fast_eq_slow {maxVariables : Nat} {t t' t'' : Tables} {seen : List String}
    {previous target : List NativeRecord} (h : Holds t seen previous)
    (htarget : LegalTarget target) {clock clock' : String}
    (hfast : Save.apply maxVariables t ⟨true, clock, target⟩ = .ok t')
    (hslow : Save.apply maxVariables t ⟨false, clock', target⟩ = .ok t'') : t' = t'' := by
  obtain ⟨-, hfast⟩ := (apply_eq h htarget maxVariables).mp hfast
  obtain ⟨-, hslow⟩ := (apply_eq h htarget maxVariables).mp hslow
  have hall : Save.written ⟨false, clock', target⟩ t = target := by
    simp [Save.written]
  have hcomplete : ∀ r ∈ writeOrder target, r.Complete := fun r hr =>
    htarget.complete r (mem_writeOrder.mp hr)
  rw [hall] at hslow
  have hskip := writes_filter (p := t.isChanged) (writeOrder_distinct htarget.distinct) hcomplete
    (fun r hr hr' => get?_of_mem_previous h (mem_of_not_isChanged h hr')
      (mem_writeOrder.mp hr)) hslow
  rw [← writeOrder_filter, writes_clock (fun r hr => htarget.complete r
    (List.mem_of_mem_filter (mem_writeOrder.mp hr))) clock' clock] at hskip
  exact Except.ok.inj (hfast.symm.trans hskip)

/-- A pending transfer. -/
def pendingRecord : NativeRecord where
  txId := "t"
  fromAddress := "a"
  nonce := "1"
  timestamp := "2026-01-01T00:00:00+00:00"
  signed := "s"
  status := .validatedPending

def pendingSave (target : List NativeRecord) : Save where
  fast := false
  clock := "2026-01-01T00:00:00+00:00"
  target

theorem pendingRecord_legal : LegalTarget [pendingRecord] where
  complete := by
    intro r hr
    obtain rfl := List.mem_singleton.mp hr
    exact ⟨by decide +kernel, by decide +kernel, by decide +kernel, by decide +kernel⟩
  distinct := List.nodup_singleton _
  oneActive := by
    intro q hq r hr _ _ _
    rw [List.mem_singleton.mp hq, List.mem_singleton.mp hr]

theorem legalTarget_nil : LegalTarget [] := ⟨by simp, List.nodup_nil, by simp⟩

end NativeLifecycle

end ZoidbergChain
