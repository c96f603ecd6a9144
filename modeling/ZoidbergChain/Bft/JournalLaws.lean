import ZoidbergChain.Bft.Journal
import ZoidbergChain.Consensus.HashChain

/-!
# What a journal binds

A journal that loads is read the same way wherever its records come from, so two journals are
compared over one set of records on which the digest has no collision.

- `below_replayStep`: an event is read the same way from any larger store of records.
- `hashChain_replayStep`: the events are a hash chain.
- `Extends`: later events keep the payload of every slot and the signature of every signed one.
- `load_cases`: what a journal that loads has been checked for.
-/

namespace ZoidbergChain

open Python CanonicalV3 Consensus

namespace Bft

/-! ## Larger stores -/

/-- What the first computation returns, the second returns. -/
def Below {α : Type} (x y : Py α) : Prop := ∀ a, x = .ok a → y = .ok a

namespace Below

variable {α β σ : Type}

theorem refl (x : Py α) : Below x x := fun _ h => h

theorem bind {x y : Py α} {f g : α → Py β} (hx : Below x y) (hf : ∀ a, Below (f a) (g a)) :
    Below (x >>= f) (y >>= g) := by
  intro b hb
  obtain ⟨a, ha, hb⟩ := bind_eq_ok.mp hb
  exact bind_eq_ok.mpr ⟨a, hx a ha, hf a b hb⟩

theorem mapM {f g : α → Py β} (h : ∀ a, Below (f a) (g a)) (xs : List α) :
    Below (xs.mapM f) (xs.mapM g) := by
  induction xs with
  | nil => exact refl _
  | cons x xs ih =>
    rw [List.mapM_cons, List.mapM_cons]
    exact bind (h x) fun _ => bind ih fun _ => refl _

theorem foldlM {f g : σ → α → Py σ} (h : ∀ s a, Below (f s a) (g s a)) (xs : List α) (s : σ) :
    Below (xs.foldlM f s) (xs.foldlM g s) := by
  induction xs generalizing s with
  | nil => exact refl _
  | cons x xs ih =>
    rw [List.foldlM_cons, List.foldlM_cons]
    exact bind (h s x) fun s' => ih s'

end Below

variable {id : Identity} {get get' : Source}

theorem below_depsFor (h : ∀ kind digest, Below (get kind digest) (get' kind digest))
    (evidence : Value) : Below (depsFor id get evidence) (depsFor id get' evidence) := by
  refine Below.bind (.refl _) fun items => Below.bind (Below.mapM (fun r => ?_) items) fun _ => .refl _
  exact Below.bind (.refl _) fun _ => Below.bind (.refl _) fun _ => Below.bind (.refl _) fun _ =>
    Below.bind (h _ _) fun _ => .refl _

theorem below_reservation (h : ∀ kind digest, Below (get kind digest) (get' kind digest))
    (acc : Replay) (rule slot : Value) (deps : List Dep) :
    Below (reservation id get acc rule slot deps) (reservation id get' acc rule slot deps) := by
  unfold reservation
  iterate 9 refine Below.bind (.refl _) fun _ => ?_
  exact Below.bind (below_depsFor h _) fun _ => .refl _

theorem below_transition (h : ∀ kind digest, Below (get kind digest) (get' kind digest))
    (acc : Replay) (sequence : Int) (rule slot after : Value) (deps : List Dep) :
    Below (transition id get acc sequence rule slot after deps)
      (transition id get' acc sequence rule slot after deps) := by
  unfold transition
  split_ifs
  case pos => exact .refl _
  case pos => exact .refl _
  case pos => exact .refl _
  case pos => exact below_reservation h acc rule slot deps
  case pos => exact .refl _
  case neg => exact .refl _

/-- An event is read the same way from any store with its records. -/
theorem below_replayStep (h : ∀ kind digest, Below (get kind digest) (get' kind digest))
    (acc : Replay) (row : EventRow) : Below (replayStep id get acc row) (replayStep id get' acc row) := by
  unfold replayStep
  refine Below.bind (h _ _) fun _ => Below.bind (.refl _) fun _ => Below.bind (h _ _) fun _ =>
    Below.bind (.refl _) fun _ => ?_
  iterate 4 refine Below.bind (.refl _) fun _ => ?_
  refine Below.bind (.refl _) fun _ => Below.bind (h _ _) fun _ => Below.bind (.refl _) fun _ => ?_
  refine Below.bind (.refl _) fun _ => Below.bind (below_depsFor h _) fun _ =>
    Below.bind (.refl _) fun _ => Below.bind (.refl _) fun _ => ?_
  exact Below.bind (below_transition h _ _ _ _ _ _) fun _ => .refl _

/-! ## The chain of events -/

/-- What one event has been checked for. -/
theorem replayStep_cases {acc acc' : Replay} {row : EventRow}
    (h : replayStep id get acc row = .ok acc') :
    ∃ raw event before evidence rule slot after deps t ruleText,
      get "event" (.str row.eventId) = .ok raw ∧ parse raw 65536 = .ok event ∧
      depsFor id get evidence = .ok deps ∧
      transition id get acc row.sequence rule slot after deps = .ok t ∧
      event.pyEq (eventRecord id row.sequence acc.previous ruleText before row.stateId
        (refsValue id t.deps) slot) = true ∧
      acc' = { state := { t.state with revision := row.sequence }, previous := some row.eventId
               slots := t.slots, outbox := t.outbox
               heads := acc.heads ++ [⟨id.ns, row.sequence, row.eventId, row.stateId⟩] } := by
  unfold replayStep at h
  obtain ⟨raw, hraw, h⟩ := bind_eq_ok.mp h
  obtain ⟨event, hevent, h⟩ := bind_eq_ok.mp h
  obtain ⟨stateRaw, -, h⟩ := bind_eq_ok.mp h
  obtain ⟨after, -, h⟩ := bind_eq_ok.mp h
  obtain ⟨number, -, h⟩ := bind_eq_ok.mp h
  obtain ⟨⟨⟩, -, h⟩ := bind_eq_ok.mp h
  obtain ⟨before, -, h⟩ := bind_eq_ok.mp h
  obtain ⟨beforeId, -, h⟩ := bind_eq_ok.mp h
  obtain ⟨⟨⟩, -, h⟩ := bind_eq_ok.mp h
  obtain ⟨stored, -, h⟩ := bind_eq_ok.mp h
  obtain ⟨⟨⟩, -, h⟩ := bind_eq_ok.mp h
  obtain ⟨evidence, -, h⟩ := bind_eq_ok.mp h
  obtain ⟨deps, hdeps, h⟩ := bind_eq_ok.mp h
  obtain ⟨rule, -, h⟩ := bind_eq_ok.mp h
  obtain ⟨slot, -, h⟩ := bind_eq_ok.mp h
  obtain ⟨t, ht, h⟩ := bind_eq_ok.mp h
  obtain ⟨expected, -, h⟩ := bind_eq_ok.mp h
  obtain ⟨actual, -, h⟩ := bind_eq_ok.mp h
  obtain ⟨⟨⟩, -, h⟩ := bind_eq_ok.mp h
  obtain ⟨ruleText, -, h⟩ := bind_eq_ok.mp h
  obtain ⟨⟨⟩, hrecord, h⟩ := bind_eq_ok.mp h
  exact ⟨raw, event, _, evidence, rule, slot, after, deps, t, ruleText, hraw, hevent, hdeps, ht,
    require_eq_ok.mp hrecord, (Except.ok.inj h).symm⟩

def eventFields : List String :=
  ["after_state", "before_state", "evidence", "namespace_id", "previous", "record_version", "rule",
    "sequence", "slot"]

theorem pairwise_eventFields : eventFields.Pairwise (· < ·) := by decide

/-- The fields of an event that bind it to its place. -/
theorem eventRecord_fields {event : Value} {sequence : Int} {previous : Option String}
    {rule before after : String} {evidence slot : Value} (hevent : Ordered event)
    (h : event.pyEq (eventRecord id sequence previous rule before after evidence slot) = true) :
    ∃ es : Dict, event = .dict es ∧ (es.get "sequence").number? = some (sequence : Rat) ∧
      es.get "after_state" = .str after ∧
      (es.get "previous").pyEq (optionText previous) = true := by
  obtain ⟨es, rfl, -⟩ := Value.pyEq_dict.mp h
  obtain ⟨hkeys, hitems⟩ := (Value.pyEq_sorted_iff hevent.1 (by exact pairwise_eventFields)).mp h
  rw [hkeys] at hitems
  have hsequence := hitems "sequence" (by simp)
  have hafter := hitems "after_state" (by simp)
  have hprevious := hitems "previous" (by simp)
  simp only [Dict.get_eq _ _, Dict.get?_cons] at hsequence hafter hprevious
  exact ⟨es, rfl, Value.pyEq_int.mp hsequence, Value.pyEq_str.mp hafter, hprevious⟩

theorem eq_str_of_str_pyEq {v : Value} {s : String} (h : (Value.str s).pyEq v = true) :
    v = .str s := by
  cases v with
  | str t => rw [beq_iff_eq.mp (show (s == t) = true from h)]
  | float f => cases f <;> simp [Value.pyEq] at h
  | _ => simp [Value.pyEq] at h

/-- A text or nothing is compared as itself. -/
theorem optionText_inj {v : Value} {a b : Option String} (ha : v.pyEq (optionText a) = true)
    (hb : v.pyEq (optionText b) = true) : a = b := by
  have hnull : ∀ s : String, (Value.str s).pyEq .null = false := fun _ => rfl
  cases a with
  | none =>
    cases b with
    | none => rfl
    | some s =>
      rw [Value.pyEq_str.mp hb] at ha
      exact absurd ha (by simp [optionText, hnull])
  | some s =>
    obtain rfl := Value.pyEq_str.mp ha
    cases b with
    | none => exact absurd hb (by simp [optionText, hnull])
    | some s' => rw [Value.str.inj (Value.pyEq_str.mp hb)]

/-- The digest of an event binds the event and the one before it. -/
theorem hashChain_replayStep (id : Identity) (get : Source) :
    HashChain (replayStep id get) Replay.previous EventRow.eventId where
  tip_step h := by
    obtain ⟨-, -, -, -, -, -, -, -, -, -, -, -, -, -, -, rfl⟩ := replayStep_cases h
    rfl
  binds {s s' t t' r q} h h' heq := by
    obtain ⟨raw, event, _, _, _, _, _, _, _, _, hraw, hparse, -, -, hrecord, -⟩ := replayStep_cases h
    obtain ⟨raw', event', _, _, _, _, _, _, _, _, hraw', hparse', -, -, hrecord', -⟩ :=
      replayStep_cases h'
    rw [heq, hraw'] at hraw
    obtain rfl := Except.ok.inj hraw
    obtain rfl := Except.ok.inj (hparse.symm.trans hparse')
    have hordered := (parse_eq_ok.mp hparse).2.1
    obtain ⟨es, rfl, hsequence, hafter, hprevious⟩ := eventRecord_fields hordered hrecord
    obtain ⟨es', hes, hsequence', hafter', hprevious'⟩ := eventRecord_fields hordered hrecord'
    obtain rfl := Value.dict.inj hes
    refine ⟨?_, optionText_inj hprevious hprevious'⟩
    have hnumber := Rat.intCast_injective (Option.some.inj (hsequence.symm.trans hsequence'))
    have hstate := Value.str.inj (hafter.symm.trans hafter')
    cases r
    cases q
    simp_all

/-! ## What stays -/

/-- Later events keep the payload of a slot and the signature of a signed one. -/
structure Extends (a b : Replay) : Prop where
  slots : ∀ {coord row}, a.slots.get? coord = some row →
    ∃ row', b.slots.get? coord = some row' ∧ row'.get "payload_hex" = row.get "payload_hex"
  outbox : ∀ {coord digest}, a.outbox.get? coord = some digest →
    b.outbox.get? coord = some digest

theorem Extends.refl (a : Replay) : Extends a a := ⟨fun h => ⟨_, h, rfl⟩, fun h => h⟩

theorem Extends.trans {a b c : Replay} (h : Extends a b) (h' : Extends b c) : Extends a c where
  slots hrow := by
    obtain ⟨row', hrow', heq⟩ := h.slots hrow
    obtain ⟨row'', hrow'', heq'⟩ := h'.slots hrow'
    exact ⟨row'', hrow'', heq'.trans heq⟩
  outbox hdigest := h'.outbox (h.outbox hdigest)

/-- The rows of slots are stored records, and the signed ones say so. -/
structure Kept (U : Set ByteArray) (slots : Table Coord Dict) (outbox : Table Coord String) :
    Prop where
  nodup : slots.keys.Nodup
  rows : ∀ {coord row}, slots.get? coord = some row → ∃ raw ∈ U, parse raw 16384 = .ok (.dict row)
  signed : ∀ {coord digest}, outbox.get? coord = some digest →
    ∃ row, slots.get? coord = some row ∧ ∀ v, row.get? "status" = some v → v = .str "signed"

variable {U : Set ByteArray}

theorem index_eq_ok {d : Dict} {key : String} {v : Value} :
    d.index key = .ok v ↔ d.get? key = some v := by
  unfold Dict.index
  cases d.get? key <;> simp

/-- The record of a slot is one of the stored ones. -/
theorem mem_of_slotDep {deps : List Dep} {code : String} {row : Dict}
    (hdeps : ∀ d ∈ deps, d.raw ∈ U) (h : slotDep deps code = .ok row) :
    ∃ raw ∈ U, parse raw 16384 = .ok (.dict row) := by
  unfold slotDep at h
  split at h
  · next d hd =>
    obtain ⟨v, hv, hrow⟩ := bind_eq_ok.mp h
    obtain rfl := asObject_eq_ok hrow
    have hmem : d ∈ deps := (List.mem_filter.mp (hd ▸ List.mem_singleton_self d)).1
    exact ⟨d.raw, hdeps d hmem, hv⟩
  · cases h

/-- A reservation takes a free slot. -/
theorem reservation_keeps {acc : Replay} {rule slot : Value} {deps : List Dep} {t : Transition}
    (hdeps : ∀ d ∈ deps, d.raw ∈ U) (hkept : Kept U acc.slots acc.outbox)
    (h : reservation id get acc rule slot deps = .ok t) :
    Extends acc { acc with slots := t.slots, outbox := t.outbox } ∧ Kept U t.slots t.outbox := by
  unfold reservation at h
  obtain ⟨row, hrow, h⟩ := bind_eq_ok.mp h
  obtain ⟨coord, -, h⟩ := bind_eq_ok.mp h
  obtain ⟨⟨⟩, hfree, h⟩ := bind_eq_ok.mp h
  obtain ⟨_, -, h⟩ := bind_eq_ok.mp h
  obtain ⟨_, -, h⟩ := bind_eq_ok.mp h
  obtain ⟨_, -, h⟩ := bind_eq_ok.mp h
  obtain ⟨_, -, h⟩ := bind_eq_ok.mp h
  obtain ⟨⟨⟩, -, h⟩ := bind_eq_ok.mp h
  obtain ⟨_, -, h⟩ := bind_eq_ok.mp h
  obtain ⟨_, -, h⟩ := bind_eq_ok.mp h
  obtain ⟨_, -, h⟩ := bind_eq_ok.mp h
  obtain ⟨_, -, h⟩ := bind_eq_ok.mp h
  obtain ⟨_, -, h⟩ := bind_eq_ok.mp h
  obtain ⟨_, -, h⟩ := bind_eq_ok.mp h
  obtain ⟨_, -, h⟩ := bind_eq_ok.mp h
  obtain ⟨_, -, h⟩ := bind_eq_ok.mp h
  obtain ⟨⟨⟩, -, h⟩ := bind_eq_ok.mp h
  obtain rfl := Except.ok.inj h
  have hnone := Option.isNone_iff_eq_none.mp (require_eq_ok.mp hfree)
  have hother : ∀ {c row'}, acc.slots.get? c = some row' →
      (acc.slots.set coord row).get? c = some row' := by
    intro c row' hc
    have hne : coord ≠ c := by
      rintro rfl
      cases hnone.symm.trans hc
    rwa [Table.get?_set_of_ne hne]
  refine ⟨⟨fun hc => ⟨_, hother hc, rfl⟩, fun hc => hc⟩,
    ⟨Table.keys_set_nodup hkept.nodup, fun hc => ?_, fun hc => ?_⟩⟩
  · obtain ⟨rfl, rfl⟩ | ⟨-, hc⟩ := Table.get?_set_eq_some.mp hc
    · exact mem_of_slotDep hdeps hrow
    · exact hkept.rows hc
  · obtain ⟨row', hrow', hstatus⟩ := hkept.signed hc
    exact ⟨row', hother hrow', hstatus⟩

/-- A signature is stored once, for the payload that has been reserved. -/
theorem signatureStored_keeps {acc : Replay} {slot : Value} {deps : List Dep} {t : Transition}
    (hdeps : ∀ d ∈ deps, d.raw ∈ U) (hkept : Kept U acc.slots acc.outbox)
    (h : signatureStored id acc slot deps = .ok t) :
    Extends acc { acc with slots := t.slots, outbox := t.outbox } ∧ Kept U t.slots t.outbox := by
  unfold signatureStored at h
  obtain ⟨coord, -, h⟩ := bind_eq_ok.mp h
  obtain ⟨⟨⟩, -, h⟩ := bind_eq_ok.mp h
  obtain ⟨old, hold, h⟩ := bind_eq_ok.mp h
  obtain ⟨status, hstatus, h⟩ := bind_eq_ok.mp h
  obtain ⟨⟨⟩, hreserved, h⟩ := bind_eq_ok.mp h
  obtain ⟨row, hrow, h⟩ := bind_eq_ok.mp h
  obtain ⟨signature, -, h⟩ := bind_eq_ok.mp h
  obtain ⟨⟨⟩, hsame, h⟩ := bind_eq_ok.mp h
  obtain ⟨stored, hstored, h⟩ := bind_eq_ok.mp h
  obtain ⟨_, -, h⟩ := bind_eq_ok.mp h
  obtain rfl := Except.ok.inj h
  have hold := orRaise_eq_ok.mp hold
  obtain ⟨es, hes, -, hitems⟩ := Value.pyEq_dict.mp (require_eq_ok.mp hsame)
  obtain rfl := Value.dict.inj hes
  -- the payload: a text in the new row, and so the same one in the old row
  obtain ⟨payload, hpayload, -⟩ := bind_eq_ok.mp hstored
  have hpayload : row.get "payload_hex" = old.get "payload_hex" := by
    unfold fromHex at hpayload
    split at hpayload
    · next s hs =>
      have hget : row.get? "payload_hex" = some (.str s) := by
        cases hget : row.get? "payload_hex" with
        | none => rw [Dict.get, hget] at hs; cases hs
        | some v => rw [Dict.get, hget] at hs; exact congrArg some hs
      obtain ⟨u, hu, heq⟩ := Value.pyEqDict_get? hitems hget
      rw [Dict.get?_set_of_ne (by decide), Dict.get?_set_of_ne (by decide)] at hu
      have hsame : u = .str s := eq_str_of_str_pyEq heq
      rw [Dict.get, Dict.get, hget, hu, hsame]
    · cases hpayload
  have hfresh : acc.outbox.get? coord = none := by
    by_contra hne
    obtain ⟨digest, hdigest⟩ := Option.ne_none_iff_exists'.mp hne
    obtain ⟨row', hrow', hsigned⟩ := hkept.signed hdigest
    obtain rfl := Option.some.inj (hrow'.symm.trans hold)
    obtain rfl := hsigned status (index_eq_ok.mp hstatus)
    exact absurd (require_eq_ok.mp hreserved) (by decide)
  have hother : ∀ {c row'}, c ≠ coord → acc.slots.get? c = some row' →
      (acc.slots.set coord row).get? c = some row' :=
    fun hne hc => by rwa [Table.get?_set_of_ne (Ne.symm hne)]
  refine ⟨⟨fun {c row'} hc => ?_, fun {c d} hc => ?_⟩,
    ⟨Table.keys_set_nodup hkept.nodup, fun {c row'} hc => ?_, fun {c d} hc => ?_⟩⟩
  · by_cases hne : c = coord
    · subst hne
      obtain rfl := Option.some.inj (hold.symm.trans hc)
      exact ⟨row, Table.get?_set_self _ _ _, hpayload⟩
    · exact ⟨row', hother hne hc, rfl⟩
  · have hne : coord ≠ c := by
      rintro rfl
      cases hfresh.symm.trans hc
    rwa [Table.get?_set_of_ne hne]
  · obtain ⟨rfl, rfl⟩ | ⟨-, hc⟩ := Table.get?_set_eq_some.mp hc
    · exact mem_of_slotDep hdeps hrow
    · exact hkept.rows hc
  · obtain ⟨rfl, -⟩ | ⟨hne, hc⟩ := Table.get?_set_eq_some.mp hc
    · refine ⟨row, Table.get?_set_self _ _ _, fun v hv => ?_⟩
      obtain ⟨u, hu, heq⟩ := Value.pyEqDict_get? hitems hv
      rw [Dict.get?_set_of_ne (by decide), Dict.get?_set_self] at hu
      exact Value.pyEq_str.mp (Option.some.inj hu ▸ heq)
    · obtain ⟨row', hrow', hstatus⟩ := hkept.signed hc
      exact ⟨row', hother hne hrow', hstatus⟩

/-- One event keeps what has been promised. -/
theorem replayStep_keeps (hget : ∀ kind digest raw, get kind digest = .ok raw → raw ∈ U)
    {acc acc' : Replay} {row : EventRow} (hkept : Kept U acc.slots acc.outbox)
    (h : replayStep id get acc row = .ok acc') :
    Extends acc acc' ∧ Kept U acc'.slots acc'.outbox := by
  obtain ⟨_, _, _, _, _, _, _, deps, t, _, -, -, hdeps, ht, -, rfl⟩ := replayStep_cases h
  have hraw : ∀ d ∈ deps, d.raw ∈ U := by
    obtain ⟨items, -, hitems⟩ := bind_eq_ok.mp hdeps
    obtain ⟨deps', hmap, hout⟩ := bind_eq_ok.mp hitems
    obtain ⟨⟨⟩, -, hout⟩ := bind_eq_ok.mp hout
    obtain rfl := Except.ok.inj hout
    intro d hd
    obtain ⟨r, -, hr⟩ := exists_left_of_forall₂ (forall₂_of_mapM hmap) hd
    obtain ⟨_, -, hr⟩ := bind_eq_ok.mp hr
    obtain ⟨_, -, hr⟩ := bind_eq_ok.mp hr
    obtain ⟨_, -, hr⟩ := bind_eq_ok.mp hr
    obtain ⟨raw, hraw, hr⟩ := bind_eq_ok.mp hr
    obtain rfl := Except.ok.inj hr
    exact hget _ _ _ hraw
  have hkeeps : Extends acc { acc with slots := t.slots, outbox := t.outbox } ∧
      Kept U t.slots t.outbox := by
    unfold transition at ht
    split_ifs at ht
    · obtain ⟨⟨⟩, -, ht⟩ := bind_eq_ok.mp ht
      obtain rfl := Except.ok.inj ht
      exact ⟨Extends.refl acc, hkept⟩
    · obtain ⟨⟨⟩, -, ht⟩ := bind_eq_ok.mp ht
      obtain ⟨_, -, ht⟩ := bind_eq_ok.mp ht
      obtain ⟨_, -, ht⟩ := bind_eq_ok.mp ht
      obtain ⟨⟨⟩, -, ht⟩ := bind_eq_ok.mp ht
      obtain rfl := Except.ok.inj ht
      exact ⟨Extends.refl acc, hkept⟩
    · obtain ⟨_, -, ht⟩ := bind_eq_ok.mp ht
      obtain rfl := Except.ok.inj ht
      exact ⟨Extends.refl acc, hkept⟩
    · exact reservation_keeps hraw hkept ht
    · exact signatureStored_keeps hraw hkept ht
  exact ⟨⟨hkeeps.1.slots, hkeeps.1.outbox⟩, hkeeps.2⟩

/-- So do any number of events. -/
theorem foldlM_keeps (hget : ∀ kind digest raw, get kind digest = .ok raw → raw ∈ U)
    {rows : List EventRow} {acc acc' : Replay} (hkept : Kept U acc.slots acc.outbox)
    (h : rows.foldlM (replayStep id get) acc = .ok acc') :
    Extends acc acc' ∧ Kept U acc'.slots acc'.outbox := by
  induction rows generalizing acc with
  | nil =>
    obtain rfl := foldlM_nil_eq_ok.mp h
    exact ⟨Extends.refl _, hkept⟩
  | cons row rows ih =>
    obtain ⟨m, hm, hrest⟩ := foldlM_cons_eq_ok.mp h
    obtain ⟨hextends, hkept'⟩ := replayStep_keeps hget hkept hm
    obtain ⟨hextends', hkept''⟩ := ih hkept' hrest
    exact ⟨hextends.trans hextends', hkept''⟩

theorem kept_start (id : Identity) : Kept U (Replay.start id).slots (Replay.start id).outbox :=
  ⟨List.nodup_nil, nofun, nofun⟩

/-! ## Loading -/

/-- The records of a journal. -/
def Journal.raws (j : Journal) : Set ByteArray := {raw | ∃ e ∈ j.blobs, e.2.2 = raw}

open Classical in
/-- The record of a set behind a digest, whatever its kind. -/
noncomputable def everywhere (id : Identity) (U : Set ByteArray) : Source := fun _ digest =>
  match digest with
  | .str d =>
    if h : ∃ raw ∈ U, id.sha raw = d then .ok h.choose else .error (v3Error "missing_source")
  | _ => .error (v3Error "missing_source")

theorem everywhere_mem {kind : String} {digest : Value} {raw : ByteArray}
    (h : everywhere id U kind digest = .ok raw) : raw ∈ U := by
  unfold everywhere at h
  split at h
  · split at h
    · next hraw =>
      obtain rfl := Except.ok.inj h
      exact hraw.choose_spec.1
    · cases h
  · cases h

theorem source_eq_ok {j : Journal} {kind : String} {digest : Value} {raw : ByteArray} :
    j.source kind digest = .ok raw ↔
      ∃ d, digest = .str d ∧ j.blobs.get? d = some (kind, raw) := by
  unfold Journal.source
  cases digest with
  | str d =>
    simp only [bind_eq_ok, orRaise_eq_ok, require_eq_ok, Value.str.injEq, exists_eq_left']
    constructor
    · rintro ⟨⟨k, r⟩, hget, -, hk, hr⟩
      cases hk
      cases hr
      exact hget
    · exact fun hget => ⟨_, hget, (), rfl, rfl⟩
  | _ => simp

/-- On records without collisions, the set has every record of a journal. -/
theorem below_source (hinj : Set.InjOn id.sha U) {j : Journal} (hU : j.raws ⊆ U)
    (hblobs : ∀ e ∈ j.blobs, id.sha e.2.2 = e.1) (kind : String) (digest : Value) :
    Below (j.source kind digest) (everywhere id U kind digest) := by
  intro raw h
  obtain ⟨d, rfl, hget⟩ := source_eq_ok.mp h
  have hmem := Table.mem_of_get? hget
  have hraw : raw ∈ U := hU ⟨_, hmem, rfl⟩
  have hsha : id.sha raw = d := hblobs _ hmem
  have hexists : ∃ raw ∈ U, id.sha raw = d := ⟨raw, hraw, hsha⟩
  have hsame := hinj hexists.choose_spec.1 hraw (hexists.choose_spec.2.trans hsha.symm)
  simp only [everywhere]
  rw [dif_pos hexists, hsame]

/-- Rows that are read one by one keep their keys. -/
theorem get?_of_mapM {α β : Type} {f : Coord × α → Py (Coord × β)} {t : Table Coord α}
    {u : Table Coord β} (hf : ∀ e e', f e = .ok e' → e'.1 = e.1) (h : t.mapM f = .ok u)
    {coord : Coord} {b : β} (hb : u.get? coord = some b) :
    ∃ a, t.get? coord = some a ∧ f (coord, a) = .ok (coord, b) := by
  induction t generalizing u with
  | nil =>
    rw [List.mapM_nil] at h
    cases h
    cases hb
  | cons e t ih =>
    rw [List.mapM_cons] at h
    obtain ⟨e', he', h⟩ := bind_eq_ok.mp h
    obtain ⟨rest, hrest, h⟩ := bind_eq_ok.mp h
    obtain rfl := pure_eq_ok.mp h
    have hkey := hf e e' he'
    obtain ⟨k, a⟩ := e
    obtain ⟨k', b'⟩ := e'
    obtain rfl : k' = k := hkey
    rw [Table.get?_cons] at hb ⊢
    split_ifs at hb ⊢ with hk
    · obtain rfl := Option.some.inj hb
      subst hk
      exact ⟨a, rfl, he'⟩
    · exact ih hrest hb

/-- What a journal that loads has been checked for, read from a set with all its records. -/
structure Reads (id : Identity) (U : Set ByteArray) (j : Journal) (loaded : Loaded)
    (acc : Replay) : Prop where
  replayed : j.events.foldlM (replayStep id (everywhere id U)) (.start id) = .ok acc
  state : loaded.state = acc.state
  slots : loaded.slots = acc.slots
  heads : loaded.heads = acc.heads
  head : acc.heads.getLast? = some loaded.head
  indexed : ∀ e ∈ j.slots, ∃ row raw, loaded.slots.get? e.1 = some row ∧ raw ∈ U ∧
    parse raw 16384 = .ok (.dict row) ∧ id.sha raw = e.2
  outbox : ∀ {coord raw}, loaded.outbox.get? coord = some raw →
    raw ∈ U ∧ acc.outbox.get? coord = some (id.sha raw)

/-- A journal that loads is read from its own records as from any others. -/
theorem load_cases (hinj : Set.InjOn id.sha U) {j : Journal} (hU : j.raws ⊆ U) {loaded : Loaded}
    (h : load id j = .ok loaded) : ∃ acc, Reads id U j loaded acc := by
  have hreplay : replay id j = .ok loaded := by
    unfold load at h
    split at h
    · next hok => rw [hok, h]
    · split at h <;> cases h
  unfold replay at hreplay
  obtain ⟨⟨⟩, -, hreplay⟩ := bind_eq_ok.mp hreplay
  obtain ⟨⟨⟩, -, hreplay⟩ := bind_eq_ok.mp hreplay
  obtain ⟨⟨⟩, hblobs, hreplay⟩ := bind_eq_ok.mp hreplay
  obtain ⟨acc, hacc, hreplay⟩ := bind_eq_ok.mp hreplay
  obtain ⟨head, hhead, hreplay⟩ := bind_eq_ok.mp hreplay
  obtain ⟨_, -, hreplay⟩ := bind_eq_ok.mp hreplay
  obtain ⟨⟨⟩, -, hreplay⟩ := bind_eq_ok.mp hreplay
  obtain ⟨slots, hslots, hreplay⟩ := bind_eq_ok.mp hreplay
  obtain ⟨⟨⟩, hsame, hreplay⟩ := bind_eq_ok.mp hreplay
  obtain ⟨⟨⟩, -, hreplay⟩ := bind_eq_ok.mp hreplay
  obtain ⟨outbox, houtbox, hreplay⟩ := bind_eq_ok.mp hreplay
  obtain rfl := Except.ok.inj hreplay
  have hdigest : ∀ e ∈ j.blobs, id.sha e.2.2 = e.1 := by
    intro e he
    obtain ⟨⟨⟩, hcheck, -⟩ := bind_eq_ok.mp (forM_eq_ok.mp hblobs e he)
    exact (require_eq_ok.mp hcheck).2
  have hreplayed := Below.foldlM (below_replayStep (below_source hinj hU hdigest)) _ _ _ hacc
  obtain ⟨-, hkept⟩ := foldlM_keeps (fun _ _ _ => everywhere_mem) (kept_start id) hreplayed
  refine ⟨acc, hreplayed, rfl, rfl, rfl, orRaise_eq_ok.mp hhead, fun e he => ?_, fun hraw => ?_⟩
  · obtain ⟨⟨c, row⟩, hrow, hf⟩ := mapM_eq_ok_mem hslots e ((require_eq_ok.mp hsame).1 e he)
    obtain ⟨raw, hJ, hf⟩ := bind_eq_ok.mp hf
    obtain rfl := Except.ok.inj hf
    have hget := Table.get?_of_mem hkept.nodup hrow
    obtain ⟨raw', hraw', hparse⟩ := hkept.rows hget
    obtain rfl := Except.ok.inj (hJ.symm.trans (parse_eq_ok.mp hparse).2.2)
    exact ⟨row, raw, hget, hraw', hparse, rfl⟩
  · have hkey : ∀ e e', outboxRow j.source e = .ok e' → e'.1 = e.1 := by
      intro e e' he
      obtain ⟨raw, -, he⟩ := bind_eq_ok.mp he
      obtain rfl := Except.ok.inj he
      rfl
    obtain ⟨digest, hget, hrow⟩ := get?_of_mapM hkey houtbox hraw
    obtain ⟨raw', hsource, hrow⟩ := bind_eq_ok.mp hrow
    cases hrow
    obtain ⟨d, hd, hblob⟩ := source_eq_ok.mp hsource
    obtain rfl := Value.str.inj hd
    have hmem := Table.mem_of_get? hblob
    exact ⟨hU ⟨_, hmem, rfl⟩, hget.trans (congrArg some (hdigest _ hmem).symm)⟩

/-! ## Appending -/

theorem putBlob_cases {j j' : Journal} {kind digest : String} {raw : ByteArray}
    (h : putBlob id j kind raw = .ok (digest, j')) :
    digest = id.sha raw ∧ raw ∈ j'.raws ∧ j.raws ⊆ j'.raws ∧ j'.slots = j.slots := by
  unfold putBlob at h
  split at h
  · cases h
    refine ⟨rfl, ⟨_, List.mem_append_right _ (List.mem_singleton_self _), rfl⟩, ?_, rfl⟩
    rintro raw' ⟨e, he, rfl⟩
    exact ⟨e, List.mem_append_left _ he, rfl⟩
  · next blob hblob =>
    obtain ⟨⟨⟩, hsame, h⟩ := bind_eq_ok.mp h
    cases h
    obtain rfl := require_eq_ok.mp hsame
    exact ⟨rfl, ⟨_, Table.mem_of_get? hblob, rfl⟩, subset_rfl, rfl⟩

/-- The records that an event rests on are stored with it. -/
theorem append_cases {j j' : Journal} {before after : State} {rule : String} {deps : List Dep}
    {slot : Value} {previous : Option String} {head : Head}
    (h : append id j before after rule deps slot previous = .ok (head, j')) :
    (∀ d ∈ deps, d.raw ∈ j'.raws) ∧ j'.slots = j.slots := by
  have hputs : ∀ {deps : List Dep} {j j' : Journal},
      deps.foldlM (fun j d => (putBlob id j d.kind d.raw).map Prod.snd) j = .ok j' →
      (∀ d ∈ deps, d.raw ∈ j'.raws) ∧ j.raws ⊆ j'.raws ∧ j'.slots = j.slots := by
    intro deps
    induction deps with
    | nil =>
      intro j j' h
      obtain rfl := foldlM_nil_eq_ok.mp h
      exact ⟨nofun, subset_rfl, rfl⟩
    | cons d deps ih =>
      intro j j' h
      obtain ⟨m, hm, hrest⟩ := foldlM_cons_eq_ok.mp h
      cases hput : putBlob id j d.kind d.raw with
      | error e => rw [hput] at hm; cases hm
      | ok r =>
        rw [hput] at hm
        obtain rfl := Except.ok.inj hm
        obtain ⟨-, hraw, hmono, hslots⟩ := putBlob_cases hput
        obtain ⟨hall, hmono', hslots'⟩ := ih hrest
        exact ⟨List.forall_mem_cons.mpr ⟨hmono' hraw, hall⟩, hmono.trans hmono',
          hslots'.trans hslots⟩
  unfold append at h
  obtain ⟨⟨⟩, -, h⟩ := bind_eq_ok.mp h
  obtain ⟨j₁, hdeps, h⟩ := bind_eq_ok.mp h
  obtain ⟨beforeRaw, -, h⟩ := bind_eq_ok.mp h
  obtain ⟨⟨_, j₂⟩, hbefore, h⟩ := bind_eq_ok.mp h
  obtain ⟨afterRaw, -, h⟩ := bind_eq_ok.mp h
  obtain ⟨⟨_, j₃⟩, hafter, h⟩ := bind_eq_ok.mp h
  obtain ⟨eventRaw, -, h⟩ := bind_eq_ok.mp h
  obtain ⟨⟨_, j₄⟩, hevent, h⟩ := bind_eq_ok.mp h
  obtain ⟨⟨⟩, -, h⟩ := bind_eq_ok.mp h
  obtain ⟨_, -, h⟩ := bind_eq_ok.mp h
  cases h
  obtain ⟨hall, -, hslots₁⟩ := hputs hdeps
  obtain ⟨-, -, hmono₂, hslots₂⟩ := putBlob_cases hbefore
  obtain ⟨-, -, hmono₃, hslots₃⟩ := putBlob_cases hafter
  obtain ⟨-, -, hmono₄, hslots₄⟩ := putBlob_cases hevent
  refine ⟨fun d hd => ?_, hslots₄.trans (hslots₃.trans (hslots₂.trans hslots₁))⟩
  exact hmono₄ (hmono₃ (hmono₂ (hall d hd)))

theorem ordered_refsValue (deps : List Dep) : Ordered (refsValue id deps) := by
  have hlist : ∀ rs : List (String × String),
      Ordered (.list (rs.map fun r => .dict [("digest", .str r.2), ("kind", .str r.1)])) := by
    intro rs
    induction rs with
    | nil => trivial
    | cons r rs ih =>
      exact ⟨⟨show ["digest", "kind"].Pairwise (· < ·) by decide, trivial, trivial, trivial⟩, ih⟩
  exact hlist _

def slotFields : List String :=
  ["after_revision", "before_revision", "block_record_id", "evidence", "fence_generation",
    "height", "message_id", "namespace_id", "payload_hex", "purpose", "round", "signature",
    "slot_version", "status", "validation_id"]

theorem pairwise_slotFields : slotFields.Pairwise (· < ·) := by decide

/-- The row of a reservation has the payload as its digits. -/
theorem slotRecord_cases {e row : Dict} {s : State} {planned : Planned}
    (h : slotRecord id e s planned = .ok row) : Ordered (.dict row) ∧
      ∃ raw, J (.dict e) = .ok raw ∧ row.get "payload_hex" = .str (toHex raw) := by
  obtain ⟨raw, hraw, h⟩ := bind_eq_ok.mp h
  obtain ⟨slot, -, h⟩ := bind_eq_ok.mp h
  cases h
  refine ⟨⟨pairwise_slotFields, ?_⟩, raw, hraw, by simp [Dict.get, Dict.get?_cons]⟩
  exact ⟨trivial, trivial, ordered_optionText _, ordered_refsValue _, trivial, trivial, trivial,
    trivial, trivial, trivial, trivial, trivial, trivial, trivial, ordered_optionText _, trivial⟩

end Bft

end ZoidbergChain
