import ZoidbergChain.Bft.JournalLaws
import ZoidbergChain.Bft.Signer

/-!
# No equivocation

The journal is the signer's own, but the witness is what it cannot take back: every journal that
a signer accepts continues what the witness has seen. So whatever is put in the place of the
journal between two calls, and wherever a call ends, a slot is signed for one payload and one
signature of it is handed out.

- `Covers`: what the witness has seen explains what has been signed and handed out.
- `Safe` is kept by every step of every call: `keeps_sign` and its relatives.
- `noEquivocation` is the result about runs.
-/

namespace ZoidbergChain

open Python CanonicalV3 Consensus Program

namespace Bft

variable {id : Identity} {U : Set ByteArray}

/-! ## Continuing a journal -/

def headOf (id : Identity) (row : EventRow) : Head :=
  ⟨id.ns, row.sequence, row.eventId, row.stateId⟩

/-- The heads are those of the events, and the last event is the one to follow. -/
theorem heads_of_foldlM {get : Source} {rows : List EventRow} {acc acc' : Replay}
    (h : rows.foldlM (replayStep id get) acc = .ok acc') :
    acc'.heads = acc.heads ++ rows.map (headOf id) ∧
      acc'.previous = (rows.getLast?.map EventRow.eventId).or acc.previous := by
  induction rows generalizing acc with
  | nil =>
    obtain rfl := foldlM_nil_eq_ok.mp h
    simp
  | cons row rows ih =>
    obtain ⟨m, hm, hrest⟩ := foldlM_cons_eq_ok.mp h
    obtain ⟨_, _, _, _, _, _, _, _, _, _, -, -, -, -, -, rfl⟩ := replayStep_cases hm
    obtain ⟨hheads, hprevious⟩ := ih hrest
    refine ⟨by rw [hheads, List.map_cons, List.append_assoc]; rfl, ?_⟩
    rw [hprevious, List.getLast?_cons]
    cases rows.getLast? <;> rfl

theorem ordered_head (h : Head) : Ordered h.toValue :=
  ⟨by show ["event_id", "namespace_id", "record_version", "sequence", "state_id"].Pairwise (· < ·)
      decide, trivial, trivial, trivial, trivial, trivial, trivial⟩

theorem eventId_of_pyEq {h h' : Head} (heq : h.toValue.pyEq h'.toValue = true) :
    h.eventId = h'.eventId := by
  obtain ⟨-, hitems⟩ := (Value.pyEq_sorted_iff (ordered_head h).1 (ordered_head h').1).mp heq
  have hitem := hitems "event_id" (by simp)
  exact (Value.str.inj (Value.pyEq_str.mp hitem))

/-- A journal that continues a head has all the events behind that head. -/
theorem extends_of_continues {rows rows' : List EventRow} {acc acc' : Replay} {last : Head}
    {raw : ByteArray} {old : Value}
    (hrows : rows.foldlM (replayStep id (everywhere id U)) (.start id) = .ok acc)
    (hrows' : rows'.foldlM (replayStep id (everywhere id U)) (.start id) = .ok acc')
    (hlast : acc.heads.getLast? = some last) (hraw : J last.toValue = .ok raw)
    (hold : parse raw 16384 = .ok old) (hcontinues : Continues acc'.heads old) :
    Extends acc acc' := by
  obtain ⟨-, hordered, hJ⟩ := parse_eq_ok.mp hold
  obtain rfl := J_inj hordered (ordered_head last) hJ hraw
  obtain ⟨hheads, hprevious⟩ := heads_of_foldlM hrows
  obtain ⟨hheads', -⟩ := heads_of_foldlM hrows'
  have hheads : acc.heads = rows.map (headOf id) := hheads
  have hheads' : acc'.heads = rows'.map (headOf id) := hheads'
  -- the head is that of an event of the longer journal
  unfold Continues at hcontinues
  split at hcontinues
  · next n hn =>
    obtain ⟨hlow, hhigh, h, hget, heq⟩ := hcontinues
    rw [hheads', List.getElem?_map, Option.mem_def, Option.map_eq_some_iff] at hget
    obtain ⟨row, hrow, rfl⟩ := hget
    have hid : row.eventId = last.eventId := eventId_of_pyEq heq
    rw [← List.take_append_drop ((n - 1).toNat + 1) rows'] at hrows'
    obtain ⟨m, hm, hrest⟩ := foldlM_append_eq_ok.mp hrows'
    have htip : acc.previous = m.previous := by
      have htake : (rows'.take ((n - 1).toNat + 1)).getLast? = some row := by
        rw [List.take_add_one, hrow, Option.toList_some, List.getLast?_concat]
      rw [(heads_of_foldlM hm).2, htake, hprevious]
      rw [hheads, List.getLast?_map, Option.map_eq_some_iff] at hlast
      obtain ⟨row', hrow', rfl⟩ := hlast
      rw [hrow']
      simp [hid, headOf]
    obtain ⟨-, rfl, hrest⟩ := (hashChain_replayStep id _).prefix_of_tip rfl hrows hrows' hm htip
    obtain ⟨-, hkept⟩ := foldlM_keeps (fun _ _ _ => everywhere_mem) (kept_start id) hrows
    exact (foldlM_keeps (fun _ _ _ => everywhere_mem) hkept hrest).1
  · exact hcontinues.elim

/-! ## What has been signed and handed out -/

/-- The indexes behind some events explain an action. -/
def Recorded (id : Identity) (U : Set ByteArray) (acc : Replay) : Action → Prop
  | .applied coord payload =>
    ∃ row, acc.slots.get? coord = some row ∧ row.get "payload_hex" = .str (toHex payload)
  | .released coord raw => raw ∈ U ∧ acc.outbox.get? coord = some (id.sha raw)

theorem Recorded.mono {acc acc' : Replay} (h : Extends acc acc') {a : Action}
    (ha : Recorded id U acc a) : Recorded id U acc' a := by
  cases a with
  | applied coord payload =>
    obtain ⟨row, hrow, hpayload⟩ := ha
    obtain ⟨row', hrow', heq⟩ := h.slots hrow
    exact ⟨row', hrow', heq.trans hpayload⟩
  | released coord raw => exact ⟨ha.1, h.outbox ha.2⟩

/-- The witness has seen the last of some events, and they explain the log. -/
structure Covers (id : Identity) (U : Set ByteArray) (witness : Option Witness)
    (log : List Action) (rows : List EventRow) (acc : Replay) : Prop where
  replayed : rows.foldlM (replayStep id (everywhere id U)) (.start id) = .ok acc
  seen : ∃ row last, witness = some row ∧ acc.heads.getLast? = some last ∧
    J last.toValue = .ok row.head
  explained : ∀ a ∈ log, Recorded id U acc a

/-- The set has all records that have been in place. -/
def Bound (U : Set ByteArray) (w : World) : Prop := ∀ j ∈ w.journals, j.raws ⊆ U

/-- What is true before and after every step. -/
def Safe (id : Identity) (U : Set ByteArray) (w : World) : Prop :=
  Bound U w → (w.witness = none → w.log = []) ∧
    (w.witness ≠ none → ∃ rows acc, Covers id U w.witness w.log rows acc)

/-- The journal is in place. -/
def InPlace (id : Identity) (U : Set ByteArray) (j : Journal) (w : World) : Prop :=
  w.journals.head? = some j ∧ Safe id U w

/-- The journal is in place, and the witness has seen all of it. -/
def Witnessed (id : Identity) (U : Set ByteArray) (j : Journal) (w : World) : Prop :=
  w.journals.head? = some j ∧ (Bound U w → ∃ acc, Covers id U w.witness w.log j.events acc)

/-- The witnessed journal explains an action to come. -/
def Explains (id : Identity) (U : Set ByteArray) (j : Journal) (a : Action) (w : World) : Prop :=
  w.journals.head? = some j ∧
    (Bound U w → ∃ acc, Covers id U w.witness w.log j.events acc ∧ Recorded id U acc a)

/-- What does not depend on the owner and on what is to go wrong. -/
def Stable (p : World → Prop) : Prop :=
  ∀ w owner faults, p w → p { w with owner := owner, faults := faults }

theorem stable_safe : Stable (Safe id U) := fun _ _ _ h => h

theorem stable_inPlace {j : Journal} : Stable (InPlace id U j) := fun _ _ _ h => h

theorem stable_witnessed {j : Journal} : Stable (Witnessed id U j) := fun _ _ _ h => h

theorem stable_explains {j : Journal} {a : Action} : Stable (Explains id U j a) :=
  fun _ _ _ h => h

theorem Witnessed.safe {j : Journal} {w : World} (h : Witnessed id U j w) : Safe id U w := by
  intro hbound
  obtain ⟨acc, hacc⟩ := h.2 hbound
  obtain ⟨row, last, hrow, -⟩ := hacc.seen
  exact ⟨fun hnone => absurd (hrow.symm.trans hnone) nofun, fun _ => ⟨_, acc, hacc⟩⟩

theorem Witnessed.inPlace {j : Journal} {w : World} (h : Witnessed id U j w) :
    InPlace id U j w := ⟨h.1, h.safe⟩

theorem Explains.witnessed {j : Journal} {a : Action} {w : World} (h : Explains id U j a w) :
    Witnessed id U j w := ⟨h.1, fun hbound => (h.2 hbound).imp fun _ hacc => hacc.1⟩

/-- Logging what the journal explains. -/
theorem Explains.record {j : Journal} {a : Action} {w : World} (h : Explains id U j a w) :
    Witnessed id U j { w with log := w.log ++ [a] } := by
  refine ⟨h.1, fun hbound => ?_⟩
  obtain ⟨acc, hacc, ha⟩ := h.2 hbound
  refine ⟨acc, hacc.replayed, hacc.seen, fun b hb => ?_⟩
  obtain hb | hb := List.mem_append.mp hb
  · exact hacc.explained b hb
  · rwa [List.mem_singleton.mp hb]

/-- Another journal in place. -/
theorem Safe.replace {w : World} (h : Safe id U w) (j : Journal) :
    InPlace id U j { w with journals := j :: w.journals } :=
  ⟨rfl, fun hbound => h fun j' hj' => hbound j' (List.mem_cons_of_mem _ hj')⟩

/-- The witness moves on to the end of a journal that continues what it has seen. -/
theorem InPlace.witness {j : Journal} {w : World} (hinj : Set.InjOn id.sha U)
    (h : InPlace id U j w) {loaded : Loaded} (hload : load id j = .ok loaded) {witness : Witness}
    (hwitness : w.witness = some witness) {old : Value} (hold : parse witness.head 16384 = .ok old)
    (hcontinues : Continues loaded.heads old) {head : Head}
    (hhead : loaded.heads.getLast? = some head) {raw : ByteArray} (hraw : J head.toValue = .ok raw)
    {generation : Int} :
    Witnessed id U j { w with witness := some { witness with head := raw, generation := generation } } := by
  refine ⟨h.1, fun hbound => ?_⟩
  obtain ⟨acc, hreads⟩ := load_cases hinj (hbound j (List.mem_of_mem_head? h.1)) hload
  obtain ⟨rows, acc', hcovers⟩ := (h.2 hbound).2 (hwitness ▸ nofun)
  obtain ⟨row, last, hrow, hlast, hlastRaw⟩ := hcovers.seen
  obtain rfl := Option.some.inj (hwitness.symm.trans hrow)
  rw [hreads.heads] at hcontinues hhead
  have hextends := extends_of_continues hcovers.replayed hreads.replayed hlast hlastRaw hold hcontinues
  exact ⟨acc, hreads.replayed, ⟨_, head, rfl, hhead, hraw⟩,
    fun a ha => (hcovers.explained a ha).mono hextends⟩

/-- What a witnessed journal says of a slot and of a signature is what it explains. -/
theorem Witnessed.explains {j : Journal} {w : World} (hinj : Set.InjOn id.sha U)
    (h : Witnessed id U j w) {loaded : Loaded} (hload : load id j = .ok loaded) {a : Action}
    (ha : j.raws ⊆ U → ∀ acc, Reads id U j loaded acc → Recorded id U acc a) :
    Explains id U j a w := by
  refine ⟨h.1, fun hbound => ?_⟩
  have hU := hbound j (List.mem_of_mem_head? h.1)
  obtain ⟨acc, hcovers⟩ := h.2 hbound
  obtain ⟨acc', hreads⟩ := load_cases hinj hU hload
  obtain rfl := Except.ok.inj (hcovers.replayed.symm.trans hreads.replayed)
  exact ⟨acc, hcovers, ha hU acc hreads⟩

/-! ## Steps -/

variable {p : World → Prop} {α : Type}

theorem keeps_py (hsafe : ∀ w, p w → Safe id U w) (x : Py α) :
    Keeps (Safe id U) p (py x) fun a w => x = .ok a ∧ p w := by
  refine (Keeps.ofExcept hsafe).conseq (fun _ h => h) fun a w h => ⟨?_, h.2⟩
  cases x with
  | error e => cases h.1
  | ok b => exact congrArg Except.ok (Except.ok.inj h.1)

/-- A check, or a value, that a later step needs nothing of. -/
theorem keeps_check (hsafe : ∀ w, p w → Safe id U w) (x : Py α) :
    Keeps (Safe id U) p (py x) fun _ => p :=
  (keeps_py hsafe x).conseq (fun _ h => h) fun _ _ h => h.2

theorem keeps_point (hsafe : ∀ w, p w → Safe id U w) (hstable : Stable p) :
    Keeps (Safe id U) p point fun _ => p := by
  intro w hw
  have hnext : ∀ faults, p { w with faults } := fun faults => hstable w w.owner faults hw
  unfold point
  split
  · refine ⟨fun _ _ h => ?_, fun _ _ h => ?_⟩ <;> cases h
    exact hw
  · refine ⟨fun _ _ h => ?_, fun _ _ h => ?_⟩ <;> cases h
    exact hnext _
  · refine ⟨fun _ _ h => ?_, fun _ _ h => ?_⟩ <;> cases h
    exact hsafe _ (hnext _)

theorem keeps_setOwner (hstable : Stable p) (owner : Option Owner) :
    Keeps (Safe id U) p (setOwner owner) fun _ => p :=
  Keeps.modify fun w hw => hstable w owner w.faults hw

theorem keeps_self (hsafe : ∀ w, p w → Safe id U w) : Keeps (Safe id U) p self fun _ => p :=
  Keeps.get.bind fun _ => (keeps_check (fun w h => hsafe w h.2) _).conseq (fun _ h => h)
    fun _ _ h => h.2

theorem keeps_journal (hsafe : ∀ w, p w → Safe id U w) :
    Keeps (Safe id U) p journal fun j w => w.journals.head? = some j ∧ p w := by
  refine Keeps.get.bind fun _ => (keeps_py (fun w h => hsafe w h.2) _).conseq (fun _ h => h) ?_
  rintro j w' ⟨hj, rfl, hp⟩
  exact ⟨orRaise_eq_ok.mp hj, hp⟩

/-- A commit of the journal, with a point before it and one behind it. -/
theorem keeps_commit {q : World → Prop} (hsafe : ∀ w, p w → Safe id U w) (hstable : Stable p)
    (hsafe' : ∀ w, q w → Safe id U w) (hstable' : Stable q) {j : Journal}
    (h : ∀ w, p w → q { w with journals := j :: w.journals }) :
    Keeps (Safe id U) p (commit j) fun _ => q :=
  (keeps_point hsafe hstable).bind fun _ =>
    (Keeps.modify (q := fun _ => q) h).bind fun _ => keeps_point hsafe' hstable'

/-- A new journal. -/
theorem keeps_commit_new (hsafe : ∀ w, p w → Safe id U w) (hstable : Stable p) (j : Journal) :
    Keeps (Safe id U) p (commit j) fun _ => InPlace id U j :=
  keeps_commit hsafe hstable (fun _ h => h.2) stable_inPlace fun w hw => (hsafe w hw).replace j

/-- The journal that is in place already. -/
theorem keeps_commit_same {j : Journal} :
    Keeps (Safe id U) (Witnessed id U j) (commit j) fun _ => Witnessed id U j :=
  keeps_commit (fun _ h => h.safe) stable_witnessed (fun _ h => h.safe) stable_witnessed
    fun _ h => ⟨rfl, fun hbound => h.2 fun j' hj' => hbound j' (List.mem_cons_of_mem _ hj')⟩

/-- A commit of the witness. -/
theorem keeps_commitWitness {j : Journal} (hsafe : ∀ w, p w → Safe id U w) (hstable : Stable p)
    {witness : Witness} (h : ∀ w, p w → Witnessed id U j { w with witness := some witness }) :
    Keeps (Safe id U) p (commitWitness witness) fun _ => Witnessed id U j :=
  (keeps_point hsafe hstable).bind fun _ =>
    (Keeps.modify (q := fun _ => Witnessed id U j) h).bind fun _ =>
      keeps_point (fun _ h => h.safe) stable_witnessed

theorem keeps_readWitness (hsafe : ∀ w, p w → Safe id U w) :
    Keeps (Safe id U) p (readWitness id) fun r w =>
      w.witness = some r.1 ∧ parse r.1.head 16384 = .ok r.2 ∧ p w := by
  refine Keeps.get.bind fun w => ?_
  have hsafe' : ∀ w', w = w' ∧ p w' → Safe id U w' := fun w' h => hsafe w' h.2
  refine (keeps_py hsafe' _).bind fun witness => ?_
  have hsafe'' : ∀ w', orRaise w.witness noFile = .ok witness ∧ w = w' ∧ p w' → Safe id U w' :=
    fun w' h => hsafe' w' h.2
  refine (keeps_check hsafe'' _).bind fun _ => (keeps_check hsafe'' _).bind fun _ =>
    (keeps_py hsafe'' _).bind fun head => ?_
  refine Keeps.pure ?_
  rintro w' ⟨hhead, hwitness, rfl, hp⟩
  exact ⟨orRaise_eq_ok.mp hwitness, hhead, hp⟩

/-- A check of the witness alone. -/
theorem keeps_authorize (hsafe : ∀ w, p w → Safe id U w) (head : Head) (generation : Int)
    (raw : ByteArray) : Keeps (Safe id U) p (authorize id head generation raw) fun _ => p := by
  refine (keeps_readWitness hsafe).bind fun r => ?_
  refine (keeps_check (fun w h => hsafe w h.2.2) _).bind fun _ => ?_
  exact Keeps.pure fun _ h => h.2.2

/-- The witness sees all of a journal that continues what it has seen. -/
theorem keeps_reconcile (hinj : Set.InjOn id.sha U) {j : Journal} {loaded : Loaded}
    (hload : load id j = .ok loaded) :
    Keeps (Safe id U) (InPlace id U j) (reconcile id loaded.heads) fun _ => Witnessed id U j := by
  refine (keeps_readWitness fun _ h => h.2).bind fun ⟨witness, old⟩ => ?_
  refine (keeps_py (fun _ h => h.2.2.2) _).bind fun _ => ?_
  refine (keeps_py (fun _ h => h.2.2.2.2) _).bind fun head => ?_
  refine (keeps_py (fun _ h => h.2.2.2.2.2) _).bind fun raw => ?_
  refine Keeps.bind ?_ fun _ => Keeps.pure fun _ h => h
  refine keeps_commitWitness (fun _ h => h.2.2.2.2.2.2) (fun w owner faults h => h) ?_
  rintro w ⟨hraw, hhead, hcontinues, hwitness, hold, hplace⟩
  exact hplace.witness hinj hload hwitness hold (require_eq_ok.mp hcontinues)
    (orRaise_eq_ok.mp hhead) hraw

/-- A new generation leaves the head where it is. -/
theorem keeps_claimGeneration {j : Journal} :
    Keeps (Safe id U) (Witnessed id U j) (claimGeneration id) fun _ => Witnessed id U j := by
  refine (keeps_readWitness fun _ h => h.safe).bind fun ⟨witness, head⟩ => ?_
  refine (keeps_check (fun _ h => h.2.2.safe) _).bind fun _ => ?_
  refine Keeps.bind ?_ fun _ => Keeps.pure fun _ h => h
  refine keeps_commitWitness (fun _ h => h.2.2.safe) (fun w owner faults h => h) ?_
  rintro w ⟨hwitness, -, hplace, hcovers⟩
  refine ⟨hplace, fun hbound => ?_⟩
  obtain ⟨acc, hacc⟩ := hcovers hbound
  obtain ⟨row, last, hrow, hlast, hraw⟩ := hacc.seen
  obtain rfl := Option.some.inj (hwitness.symm.trans hrow)
  exact ⟨acc, hacc.replayed, ⟨_, last, rfl, hlast, hraw⟩, hacc.explained⟩

theorem keeps_fence (hinj : Set.InjOn id.sha U) {j : Journal} (loaded : Loaded) :
    Keeps (Safe id U) (Witnessed id U j) (fence id j loaded) fun _ => Safe id U := by
  refine keeps_claimGeneration.bind fun generation => ?_
  refine (keeps_check (fun _ h => h.safe) _).bind fun ⟨_, j'⟩ => ?_
  refine (keeps_commit_new (fun _ h => h.safe) stable_witnessed j').bind fun _ => ?_
  refine (keeps_py (fun _ h => h.2) _).bind fun loaded' => Keeps.of_fact fun hload => ?_
  exact (keeps_reconcile hinj hload).bind fun _ => Keeps.pure fun _ h => h.safe

/-- Behind a recovery the witness has seen all of the journal. -/
theorem keeps_recover (hinj : Set.InjOn id.sha U) {j : Journal} :
    Keeps (Safe id U) (InPlace id U j) (recover id false) fun loaded w =>
      load id j = .ok loaded ∧ Witnessed id U j w := by
  refine (keeps_journal fun _ h => h.2).bind fun j' => ?_
  refine (keeps_py (fun _ h => h.2.2) _).bind fun loaded => ?_
  refine Keeps.conseq (p := fun w => load id j = .ok loaded ∧ InPlace id U j w) ?_ ?_ fun _ _ h => h
  · refine Keeps.of_fact fun hload => (keeps_reconcile hinj hload).bind fun generation => ?_
    refine (keeps_check (fun _ h => h.safe) _).bind fun _ => ?_
    refine (keeps_self fun _ h => h.safe).bind fun _ => ?_
    refine (keeps_check (fun _ h => h.safe) _).bind fun _ => ?_
    refine Keeps.bind (m := fun r w => r.2 = loaded ∧ Witnessed id U j w) ?_ ?_
    · simp only [Bool.false_eq_true, if_false]
      refine (keeps_check (fun _ h => h.safe) _).bind fun _ => ?_
      exact Keeps.pure fun _ h => ⟨rfl, h⟩
    · rintro ⟨generation', loaded'⟩
      refine Keeps.of_fact ?_
      rintro rfl
      refine (keeps_point (fun _ h => h.safe) stable_witnessed).bind fun _ => ?_
      refine (keeps_setOwner stable_witnessed _).bind fun _ => ?_
      exact Keeps.pure fun _ h => ⟨hload, h⟩
  · rintro w ⟨hload, hj, hplace⟩
    obtain rfl := Option.some.inj (hj.symm.trans hplace.1)
    exact ⟨hload, hplace⟩

theorem keeps_reopen (hinj : Set.InjOn id.sha U) :
    Keeps (Safe id U) (Safe id U) (recover id true) fun _ => Safe id U := by
  refine (keeps_journal fun _ h => h).bind fun j => ?_
  refine (keeps_py (fun _ h => h.2) _).bind fun loaded => Keeps.of_fact fun hload => ?_
  refine (keeps_reconcile hinj hload).bind fun generation => ?_
  refine (keeps_check (fun _ h => h.safe) _).bind fun _ => ?_
  refine (keeps_self fun _ h => h.safe).bind fun _ => ?_
  refine (keeps_check (fun _ h => h.safe) _).bind fun _ => ?_
  simp only [if_true]
  refine (keeps_fence hinj loaded).bind fun _ => ?_
  refine (keeps_point (fun _ h => h) stable_safe).bind fun _ => ?_
  exact (keeps_setOwner stable_safe _).bind fun _ => Keeps.pure fun _ h => h

/-! ## Signing -/

/-- Every load of the journal finds the slot reserved for the payload. -/
def Reserves (id : Identity) (U : Set ByteArray) (j : Journal) (coord : Coord)
    (payload : ByteArray) : Prop :=
  ∀ loaded, load id j = .ok loaded → j.raws ⊆ U → ∃ row, loaded.slots.get? coord = some row ∧
    row.get "payload_hex" = .str (toHex payload)

/-- The key is applied to what the witnessed journal reserves. -/
theorem keeps_signReserved {j : Journal} {coord : Coord} {raw : ByteArray} (grant : String)
    (key : ByteArray → Option String) :
    Keeps (Safe id U) (Explains id U j (.applied coord raw)) (signReserved id coord raw grant key)
      fun _ => Witnessed id U j := by
  refine (keeps_check (fun _ h => h.witnessed.safe) _).bind fun _ => ?_
  refine Keeps.bind (m := fun _ => Witnessed id U j) (Keeps.modify fun _ h => h.record) fun _ => ?_
  exact keeps_check (fun _ h => h.safe) _

/-- The owner of the present generation. -/
theorem keeps_witnessed (hinj : Set.InjOn id.sha U) {j : Journal} {loaded : Loaded}
    (hload : load id j = .ok loaded) :
    Keeps (Safe id U) (InPlace id U j) (witnessed id loaded) fun _ => Witnessed id U j := by
  refine (keeps_reconcile hinj hload).bind fun _ => ?_
  refine (keeps_self fun _ h => h.safe).bind fun _ => ?_
  exact (keeps_check (fun _ h => h.safe) _).bind fun _ => Keeps.pure fun _ h => h

/-- What comes out of the signature of a reserved slot is the signature that the witnessed
journal has for it. -/
theorem keeps_signSlot (hinj : Set.InjOn id.sha U) {j : Journal} {raw : ByteArray} {coord : Coord}
    (hreserves : Reserves id U j coord raw) (slot : Slot) (row : Dict)
    (key : ByteArray → Option String) :
    Keeps (Safe id U) (InPlace id U j) (signSlot id raw coord slot row key) fun result w =>
      ∃ j', Explains id U j' (.released coord result) w := by
  refine (keeps_recover hinj).bind fun loaded => Keeps.of_fact fun hload => ?_
  refine (keeps_self fun _ h => h.safe).bind fun owner => ?_
  refine (keeps_check (fun _ h => h.safe) _).bind fun generation => ?_
  refine (keeps_authorize (fun _ h => h.safe) _ _ _).bind fun grant => ?_
  have hexplains : ∀ w, Witnessed id U j w → Explains id U j (.applied coord raw) w := by
    intro w h
    refine h.explains hinj hload fun hU acc hreads => ?_
    obtain ⟨row, hrow, hpayload⟩ := hreserves loaded hload hU
    exact ⟨row, hreads.slots ▸ hrow, hpayload⟩
  refine ((keeps_signReserved grant key).conseq hexplains fun _ _ h => h).bind fun signature => ?_
  refine (keeps_point (fun _ h => h.safe) stable_witnessed).bind fun _ => ?_
  refine (keeps_check (fun _ h => h.safe) _).bind fun ⟨after, deps, result⟩ => ?_
  refine ((keeps_journal fun _ h => h.safe).conseq (fun _ h => h) fun j' w h =>
    (⟨h.1, h.2.safe⟩ : InPlace id U j' w)).bind fun j' => ?_
  refine (keeps_py (fun _ h => h.2) _).bind fun current => Keeps.of_fact fun hcurrent => ?_
  refine (keeps_witnessed hinj hcurrent).bind fun _ => ?_
  refine (keeps_check (fun _ h => h.safe) _).bind fun _ => ?_
  refine (keeps_check (fun _ h => h.safe) _).bind fun rowRaw => ?_
  refine (keeps_check (fun _ h => h.safe) _).bind fun ⟨_, j''⟩ => ?_
  refine (keeps_check (fun _ h => h.safe) _).bind fun _ => ?_
  refine (keeps_point (fun _ h => h.safe) stable_witnessed).bind fun _ => ?_
  refine (keeps_commit_new (fun _ h => h.safe) stable_witnessed _).bind fun _ => ?_
  refine (keeps_recover hinj).bind fun final => Keeps.of_fact fun hfinal => ?_
  refine (keeps_py (fun _ h => h.safe) _).bind fun _ => Keeps.of_fact fun hresult => ?_
  refine Keeps.pure fun w h => ⟨_, h.explains hinj hfinal fun _ acc hreads => ?_⟩
  exact hreads.outbox (require_eq_ok.mp hresult)

/-- What is handed out is the signature that the witnessed journal has. -/
theorem keeps_release {j : Journal} {coord : Coord} {raw : ByteArray} (publish : Bool) :
    Keeps (Safe id U) (Explains id U j (.released coord raw)) (release coord raw publish)
      fun _ => Safe id U := by
  refine (keeps_point (fun _ h => h.witnessed.safe) stable_explains).bind fun _ => ?_
  refine Keeps.bind (m := fun _ => Witnessed id U j) (Keeps.modify fun _ h => h.record) fun _ => ?_
  cases publish with
  | false => exact Keeps.pure fun _ h => h.safe
  | true =>
    exact (keeps_point (fun _ h => h.safe) stable_witnessed).bind fun _ => Keeps.pure fun _ h => h.safe

/-- A new reservation is in place for the payload. -/
theorem keeps_reserve (hinj : Set.InjOn id.sha U) {j : Journal} {e : Dict} {raw : ByteArray}
    (he : J (.dict e) = .ok raw) (loaded : Loaded) (coord : Coord)
    (proposal pv : Option ByteArray) :
    Keeps (Safe id U) (Safe id U) (reserve id j loaded e coord proposal pv) fun _ w =>
      ∃ j', Reserves id U j' coord raw ∧ InPlace id U j' w := by
  refine (keeps_check (fun _ h => h) _).bind fun planned => ?_
  refine (keeps_py (fun _ h => h) _).bind fun row => Keeps.of_fact fun hrow => ?_
  refine (keeps_py (fun _ h => h) _).bind fun rowRaw => Keeps.of_fact fun hraw => ?_
  refine (keeps_check (fun _ h => h) _).bind fun slot => ?_
  refine (keeps_py (fun _ h => h) _).bind fun ⟨_, j'⟩ => Keeps.of_fact fun happend => ?_
  refine (keeps_check (fun _ h => h) _).bind fun _ => ?_
  refine (keeps_point (fun _ h => h) stable_safe).bind fun _ => ?_
  refine (keeps_commit_new (fun _ h => h) stable_safe _).bind fun _ => ?_
  refine Keeps.pure fun w h => ⟨_, fun loaded' hload hU => ?_, h⟩
  obtain ⟨acc, hreads⟩ := load_cases hinj hU hload
  obtain ⟨row', raw', hget, hmem, hparse, hsha⟩ :=
    hreads.indexed (coord, id.sha rowRaw) (List.mem_append_right _ (List.mem_singleton_self _))
  -- the slot that is found has the digest of the new row, and so is that row
  have hstored : rowRaw ∈ j'.raws := (append_cases happend).1 ⟨"slot", rowRaw⟩ (by simp)
  obtain rfl := hinj hmem (hU hstored) hsha
  obtain ⟨hordered, raw'', hJ, hpayload⟩ := slotRecord_cases hrow
  obtain rfl := Except.ok.inj (he.symm.trans hJ)
  obtain ⟨-, hordered', hJ'⟩ := parse_eq_ok.mp hparse
  obtain rfl := Value.dict.inj (J_inj hordered' hordered hJ' hraw)
  exact ⟨row', hget, hpayload⟩

theorem keeps_ready (hsafe : ∀ w, p w → Safe id U w) : Keeps (Safe id U) p ready fun _ => p :=
  (keeps_self hsafe).bind fun _ => keeps_check hsafe _

theorem safe_disable {w : World} (h : Safe id U w) (stop : Stop) : Safe id U (disable stop w) := by
  cases stop with
  | crash => exact h
  | raised e =>
    unfold disable
    dsimp only
    split_ifs
    · exact h
    · exact stable_safe w _ w.faults h

theorem keeps_guarded {x : Act α} {q : α → World → Prop} (hx : Keeps (Safe id U) (Safe id U) x q) :
    Keeps (Safe id U) (Safe id U) (guarded x) q :=
  hx.handle fun stop => (Keeps.modify (q := fun _ => Safe id U) fun _ h => safe_disable h stop).bind
    fun _ => Keeps.raise fun _ h => h

/-- A signed slot has one payload, and one signature of it is handed out. -/
theorem keeps_sign (hinj : Set.InjOn id.sha U) (raw : ByteArray) (proposal pv : Option ByteArray)
    (publish : Bool) (key : ByteArray → Option String) :
    Keeps (Safe id U) (Safe id U) (sign id raw proposal pv publish key) fun _ => Safe id U := by
  refine (keeps_py (fun _ h => h) _).bind fun e => Keeps.of_fact fun he => ?_
  obtain ⟨-, -, -, hJ, -⟩ := envelope_eq_ok.mp he
  refine (keeps_check (fun _ h => h) _).bind fun p => ?_
  refine (keeps_check (fun _ h => h) _).bind fun _ => ?_
  refine (keeps_check (fun _ h => h) _).bind fun slot => ?_
  refine (keeps_ready fun _ h => h).bind fun _ => keeps_guarded ?_
  refine (keeps_journal fun _ h => h).bind fun j => ?_
  refine (keeps_py (fun _ h => h.2) _).bind fun loaded => Keeps.of_fact fun hload => ?_
  refine (keeps_witnessed hinj hload).bind fun _ => ?_
  have hfinish : ∀ {j' : Journal} (row : Dict), Reserves id U j' (slot.coord id.ns) raw →
      Keeps (Safe id U) (InPlace id U j') (do
        let result ← signSlot id raw (slot.coord id.ns) slot row key
        release (slot.coord id.ns) result publish) fun _ => Safe id U :=
    fun row hreserves => (keeps_signSlot hinj hreserves slot row key).bind fun result =>
      Keeps.of_exists fun j' => keeps_release publish
  split
  · next row hget =>
    refine (keeps_py (fun _ h => h.safe) _).bind fun _ => Keeps.of_fact fun hpayload => ?_
    split
    · refine (keeps_py (fun _ h => h.safe) _).bind fun result => Keeps.of_fact fun hresult => ?_
      have hexplains : ∀ w, Witnessed id U j w →
          Explains id U j (.released (slot.coord id.ns) result) w :=
        fun w h => h.explains hinj hload fun _ acc hreads =>
          hreads.outbox (orRaise_eq_ok.mp hresult)
      refine keeps_commit_same.bind fun _ => ?_
      exact (keeps_release publish).conseq hexplains fun _ _ h => h
    · refine (keeps_commit_new (fun _ h => h.safe) stable_witnessed j).bind fun _ => hfinish row ?_
      intro loaded' hload' _
      obtain rfl := Except.ok.inj (hload.symm.trans hload')
      exact ⟨row, hget, isText_iff.mp (require_eq_ok.mp hpayload)⟩
  · refine Keeps.conseq (p := Safe id U) ?_ (fun _ h => h.safe) fun _ _ h => h
    refine (keeps_reserve hinj hJ loaded _ proposal pv).bind fun row => ?_
    exact Keeps.of_exists fun j' => Keeps.of_fact fun hreserves => hfinish row hreserves

/-! ## The other calls -/

theorem keeps_start (hinj : Set.InjOn id.sha U) :
    Keeps (Safe id U) (Safe id U) (start id) fun _ => Safe id U := by
  refine (keeps_ready fun _ h => h).bind fun _ => keeps_guarded ?_
  refine (keeps_journal fun _ h => h).bind fun j => ?_
  refine (keeps_py (fun _ h => h.2) _).bind fun loaded => Keeps.of_fact fun hload => ?_
  refine (keeps_witnessed hinj hload).bind fun _ => ?_
  refine (keeps_check (fun _ h => h.safe) _).bind fun ⟨s, deps⟩ => ?_
  refine (keeps_check (fun _ h => h.safe) _).bind fun ⟨_, j'⟩ => ?_
  refine (keeps_commit_new (fun _ h => h.safe) stable_witnessed j').bind fun _ => ?_
  exact (keeps_recover hinj).bind fun _ => Keeps.pure fun _ h => h.2.safe

/-- A recovery whatever the journal is. -/
theorem keeps_recover_safe (hinj : Set.InjOn id.sha U) :
    Keeps (Safe id U) (Safe id U) (recover id false) fun _ => Safe id U := by
  intro w hw
  cases hj : w.journals.head? with
  | none =>
    have hnone : Keeps (Safe id U) (fun w => w.journals.head? = none ∧ Safe id U w)
        (recover id false) fun _ => Safe id U := by
      refine (keeps_journal fun _ h => h.2).bind fun j => fun w h => ?_
      cases h.1.symm.trans h.2.1
    exact hnone w ⟨hj, hw⟩
  | some j =>
    exact ((keeps_recover hinj).conseq (fun _ h => h) fun _ _ h => h.2.safe) w ⟨hj, hw⟩

theorem keeps_recoverOwner (hinj : Set.InjOn id.sha U) :
    Keeps (Safe id U) (Safe id U) (recoverOwner id) fun _ => Safe id U := by
  refine (keeps_self fun _ h => h).bind fun owner => ?_
  refine (keeps_setOwner stable_safe _).bind fun _ => ?_
  exact (keeps_recover_safe hinj).bind fun _ => Keeps.pure fun _ h => h

/-- There is no witness yet. -/
def Fresh (id : Identity) (U : Set ByteArray) (w : World) : Prop := w.witness = none ∧ Safe id U w

/-- A new journal is what the new witness sees. -/
theorem keeps_bootstrap (hinj : Set.InjOn id.sha U) :
    Keeps (Safe id U) (Safe id U) (bootstrap id) fun _ => Safe id U := by
  refine Keeps.get.bind fun w => ?_
  refine (keeps_py (fun _ h => h.2) _).bind fun _ => ?_
  refine Keeps.conseq (p := Fresh id U) ?_ ?_ fun _ _ h => h
  · refine (keeps_commit (q := Fresh id U) (fun _ h => h.2) (fun _ _ _ h => h) (fun _ h => h.2)
      (fun _ _ _ h => h) fun w h => ⟨h.1, (h.2.replace _).2⟩).bind fun _ => ?_
    refine (keeps_check (fun _ h => h.2) _).bind fun j => ?_
    refine (keeps_commit (q := fun w => w.witness = none ∧ InPlace id U j w) (fun _ h => h.2)
      (fun _ _ _ h => h) (fun _ h => h.2.2) (fun _ _ _ h => h)
      fun w h => ⟨h.1, h.2.replace j⟩).bind fun _ => ?_
    refine (keeps_py (fun _ h => h.2.2) _).bind fun loaded => Keeps.of_fact fun hload => ?_
    refine (keeps_py (fun _ h => h.2.2) _).bind fun raw => Keeps.of_fact fun hraw => ?_
    refine (keeps_commitWitness (j := j) (fun _ h => h.2.2) (fun _ _ _ h => h) ?_).bind fun _ =>
      (keeps_setOwner stable_witnessed _).conseq (fun _ h => h) fun _ _ h => h.safe
    -- the witness is new, so nothing has been signed
    rintro w ⟨hnone, hplace, hsafe⟩
    refine ⟨hplace, fun hbound => ?_⟩
    obtain ⟨acc, hreads⟩ := load_cases hinj (hbound j (List.mem_of_mem_head? hplace)) hload
    refine ⟨acc, hreads.replayed, ⟨_, loaded.head, rfl, hreads.head, hraw⟩, ?_⟩
    have hlog : w.log = [] := (hsafe hbound).1 hnone
    simp only [hlog]
    exact nofun
  · rintro w' ⟨hfresh, rfl, hsafe⟩
    exact ⟨Option.isNone_iff_eq_none.mp (require_eq_ok.mp hfresh).2, hsafe⟩

theorem keeps_construct {x : Act Unit} (hx : Keeps (Safe id U) (Safe id U) x fun _ => Safe id U) :
    Keeps (Safe id U) (Safe id U) (construct x) fun _ => Safe id U := by
  refine Keeps.get.bind fun w => Keeps.conseq (p := Safe id U) ?_ (fun _ h => h.2) fun _ _ h => h
  refine (keeps_check (fun _ h => h) _).bind fun _ => ?_
  refine (keeps_setOwner stable_safe _).bind fun _ => hx.handle fun stop => ?_
  exact (keeps_setOwner stable_safe none).bind fun _ => Keeps.raise fun _ h => h

/-! ## Runs -/

theorem keeps_act (hinj : Set.InjOn id.sha U) (op : Operation) :
    Keeps (Safe id U) (Safe id U) (op.act id) fun _ => Safe id U := by
  cases op with
  | bootstrap => exact keeps_construct (keeps_bootstrap hinj)
  | reopen =>
    exact keeps_construct ((keeps_reopen hinj).bind fun _ => Keeps.pure fun _ h => h)
  | start => exact keeps_start hinj
  | sign raw proposal pv publish key =>
    exact (keeps_sign hinj raw proposal pv publish key).bind fun _ => Keeps.pure fun _ h => h
  | recover => exact keeps_recoverOwner hinj
  | close => exact keeps_setOwner stable_safe none
  | crash => exact Keeps.raise fun _ h => h
  | replace j => exact Keeps.modify fun _ h => (h.replace j).2

theorem safe_step (hinj : Set.InjOn id.sha U) {w : World} (h : Safe id U w)
    (op : Operation × List (Option Stop)) : Safe id U (step id w op) := by
  obtain ⟨hok, herror⟩ := keeps_act hinj op.1 { w with faults := op.2 } (stable_safe w w.owner op.2 h)
  unfold step
  cases hact : op.1.act id { w with faults := op.2 } with
  | mk r w' =>
    cases r with
    | ok u => exact hok u w' hact
    | error stop =>
      cases stop with
      | crash => exact stable_safe w' none w'.faults (herror _ w' hact)
      | raised e => exact herror _ w' hact

theorem safe_run (hinj : Set.InjOn id.sha U) (ops : List (Operation × List (Option Stop)))
    {w : World} (h : Safe id U w) : Safe id U (run id ops w) := by
  induction ops generalizing w with
  | nil => exact h
  | cons op ops ih => exact ih (safe_step hinj h op)

theorem toHex_inj {a b : ByteArray} (h : toHex a = toHex b) : a = b := by
  have hread := readHex_hexText a.data.toList
  rw [show hexText a.data.toList = hexText b.data.toList from h, readHex_hexText] at hread
  exact ByteArray.ext (Array.ext' (Option.some.inj hread).symm)

/-- The records of all journals that have been in place. -/
def World.raws (w : World) : Set ByteArray := {raw | ∃ j ∈ w.journals, raw ∈ j.raws}

/-- Whatever calls are made, wherever they end, and whatever is put in the place of the journal
between them: the key is applied to one payload of a slot, and one signature of it is handed
out, unless two records that have been in place collide. -/
theorem noEquivocation (ops : List (Operation × List (Option Stop)))
    (hinj : Set.InjOn id.sha (run id ops {}).raws) (coord : Coord) :
    (∀ a b, .applied coord a ∈ (run id ops {}).log → .applied coord b ∈ (run id ops {}).log →
      a = b) ∧
    ∀ a b, .released coord a ∈ (run id ops {}).log → .released coord b ∈ (run id ops {}).log →
      a = b := by
  have hbound : Bound (run id ops {}).raws (run id ops {}) := fun j hj raw hraw => ⟨j, hj, hraw⟩
  have hempty : Safe id (run id ops {}).raws {} := fun _ => ⟨fun _ => rfl, fun h => (h rfl).elim⟩
  obtain ⟨hnone, hsome⟩ := safe_run hinj ops hempty hbound
  by_cases hwitness : (run id ops {}).witness = none
  · rw [hnone hwitness]
    exact ⟨fun _ _ => nofun, fun _ _ => nofun⟩
  · obtain ⟨_, acc, hcovers⟩ := hsome hwitness
    refine ⟨fun a b ha hb => ?_, fun a b ha hb => ?_⟩
    · obtain ⟨row, hrow, hpayload⟩ := hcovers.explained _ ha
      obtain ⟨row', hrow', hpayload'⟩ := hcovers.explained _ hb
      obtain rfl := Option.some.inj (hrow.symm.trans hrow')
      exact toHex_inj (Value.str.inj (hpayload.symm.trans hpayload'))
    · obtain ⟨hmem, hdigest⟩ := hcovers.explained _ ha
      obtain ⟨hmem', hdigest'⟩ := hcovers.explained _ hb
      exact hinj hmem hmem' (Option.some.inj (hdigest.symm.trans hdigest'))

end Bft

end ZoidbergChain
