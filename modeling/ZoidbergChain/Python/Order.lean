import ZoidbergChain.Python.Control

/-!
# Comparing and sorting values

- `Value.lt` is Python's `<`: numbers, texts, bytes and lists are compared with their own
  kind, anything else raises `TypeError`.
- `maxPy` is `max` and `sortPy` is `sorted`, over a comparison that may raise. Both say
  what they need of it only where they use it, so that `nan` needs no exception.
- `Value.pyEq_trans`: values that equal a third one are equal. `Dict.eq_of_pyEq`: without
  `bool` and `float`, what equals a third one is the same.
-/

namespace Python

/-! ## Transitivity of `==` -/

/-- A finite number equals the values of the same number. -/
theorem Value.pyEq_of_number {v w : Value} {q : Rat} (hv : v.number? = some q) :
    v.pyEq w = true ↔ w.number? = some q := by
  have hswap : ∀ r : Rat, (some r == w.number?) = true ↔ w.number? = some r := by
    intro r
    rw [beq_iff_eq, eq_comm]
  cases v with
  | bool b =>
    obtain rfl := Option.some.inj hv
    cases w <;> exact hswap _
  | int n =>
    obtain rfl := Option.some.inj hv
    cases w <;> exact hswap _
  | float f =>
    cases f with
    | finite x =>
      obtain rfl := Option.some.inj hv
      cases w <;> exact hswap _
    | _ => cases hv
  | _ => cases hv

mutual

theorem Value.pyEq_trans : ∀ {u v w : Value}, u.pyEq v = true → v.pyEq w = true →
    u.pyEq w = true
  | .list as, v, w, huv, hvw => by
    cases v with
    | list bs =>
      cases w with
      | list cs => exact Value.pyEqList_trans huv hvw
      | _ => cases hvw
    | _ => cases huv
  | .dict as, v, w, huv, hvw => by
    cases v with
    | dict bs =>
      cases w with
      | dict cs =>
        simp only [Value.pyEq, Bool.and_eq_true, beq_iff_eq] at huv hvw ⊢
        exact ⟨huv.1.trans hvw.1, Value.pyEqDict_trans huv.2 hvw.2⟩
      | _ => cases hvw
    | _ => cases huv
  | .null, v, w, huv, hvw => by cases v <;> first | exact hvw | cases huv
  | .str a, v, w, huv, hvw => by
    cases v with
    | str b =>
      obtain rfl : a = b := by simpa [Value.pyEq] using huv
      exact hvw
    | _ => cases huv
  | .bytes a, v, w, huv, hvw => by
    cases v with
    | bytes b =>
      obtain rfl : a = b := by simpa [Value.pyEq] using huv
      exact hvw
    | _ => cases huv
  | .float .nan, v, w, huv, _ => by cases v <;> cases huv
  | .float (.inf a), v, w, huv, hvw => by
    cases v with
    | float f =>
      cases f with
      | inf b =>
        obtain rfl : a = b := by simpa [Value.pyEq] using huv
        exact hvw
      | _ => cases huv
    | _ => cases huv
  | .bool a, v, w, huv, hvw =>
    (Value.pyEq_of_number rfl).mpr
      ((Value.pyEq_of_number ((Value.pyEq_of_number rfl).mp huv)).mp hvw)
  | .int a, v, w, huv, hvw =>
    (Value.pyEq_of_number rfl).mpr
      ((Value.pyEq_of_number ((Value.pyEq_of_number rfl).mp huv)).mp hvw)
  | .float (.finite a), v, w, huv, hvw =>
    (Value.pyEq_of_number rfl).mpr
      ((Value.pyEq_of_number ((Value.pyEq_of_number rfl).mp huv)).mp hvw)

theorem Value.pyEqList_trans : ∀ {us vs ws : List Value}, Value.pyEqList us vs = true →
    Value.pyEqList vs ws = true → Value.pyEqList us ws = true
  | [], vs, ws, huv, hvw => by
    cases vs with
    | nil => exact hvw
    | cons v vs => cases huv
  | u :: us, vs, ws, huv, hvw => by
    cases vs with
    | nil => cases huv
    | cons v vs =>
      cases ws with
      | nil => cases hvw
      | cons w ws =>
        simp only [Value.pyEqList, Bool.and_eq_true] at huv hvw ⊢
        exact ⟨Value.pyEq_trans huv.1 hvw.1, Value.pyEqList_trans huv.2 hvw.2⟩

theorem Value.pyEqDict_trans : ∀ {us : List (String × Value)} {d e : Dict},
    Value.pyEqDict us d = true → Value.pyEqDict d e = true → Value.pyEqDict us e = true
  | [], _, _, _, _ => rfl
  | (k, u) :: us, d, e, huv, hvw => by
    simp only [Value.pyEqDict, Bool.and_eq_true] at huv ⊢
    obtain ⟨hhead, htail⟩ := huv
    refine ⟨?_, Value.pyEqDict_trans htail hvw⟩
    cases hv : d.get? k with
    | none => simp [hv] at hhead
    | some v =>
      obtain ⟨w, hw, hvw⟩ := Value.pyEqDict_get? hvw hv
      rw [hv] at hhead
      rw [hw]
      exact Value.pyEq_trans hhead hvw

end

/-! ## Equal dictionaries -/

theorem Dict.get?_of_mem {d : Dict} {e : String × Value} (hd : (d.map Prod.fst).Nodup)
    (he : e ∈ d) : Dict.get? d e.1 = some e.2 := by
  induction d with
  | nil => cases he
  | cons f d ih =>
    obtain ⟨k, v⟩ := f
    obtain ⟨hk, hd⟩ : k ∉ d.map Prod.fst ∧ (d.map Prod.fst).Nodup := List.nodup_cons.mp hd
    rw [Dict.get?_cons]
    obtain rfl | hrest := List.mem_cons.mp he
    · exact if_pos rfl
    · have hne : k ≠ e.1 := by
        rintro rfl
        exact hk (List.mem_map_of_mem hrest)
      rw [if_neg hne]
      exact ih hd hrest

theorem Dict.mem_of_get? {d : Dict} {k : String} {v : Value} (h : d.get? k = some v) :
    (k, v) ∈ d := by
  induction d with
  | nil => cases h
  | cons f d ih =>
    obtain ⟨l, w⟩ := f
    rw [Dict.get?_cons] at h
    split at h
    · next hl => simp [hl, Option.some.inj h]
    · exact List.mem_cons_of_mem _ (ih h)

theorem Dict.mem_set {d : Dict} {k : String} {v : Value} {e : String × Value} (h : e ∈ d.set k v) :
    e = (k, v) ∨ e ∈ d := by
  induction d with
  | nil => exact Or.inl (List.mem_singleton.mp h)
  | cons f d ih =>
    obtain ⟨l, w⟩ := f
    by_cases hl : l = k
    · rw [Dict.set, if_pos hl, hl] at h
      exact (List.mem_cons.mp h).imp_right (List.mem_cons_of_mem _)
    · rw [Dict.set, if_neg hl] at h
      obtain rfl | h := List.mem_cons.mp h
      · exact Or.inr (List.mem_cons_self ..)
      · exact (ih h).imp_right (List.mem_cons_of_mem _)

theorem Dict.nodup_set {d : Dict} (hd : (d.map Prod.fst).Nodup) (k : String) (v : Value) :
    ((d.set k v).map Prod.fst).Nodup := by
  induction d with
  | nil => simp [Dict.set]
  | cons f d ih =>
    obtain ⟨l, w⟩ := f
    obtain ⟨hl, hd⟩ : l ∉ d.map Prod.fst ∧ (d.map Prod.fst).Nodup := List.nodup_cons.mp hd
    by_cases hlk : l = k
    · rw [Dict.set, if_pos hlk]
      exact List.nodup_cons.mpr ⟨hl, hd⟩
    · rw [Dict.set, if_neg hlk]
      refine List.nodup_cons.mpr ⟨fun hmem => ?_, ih hd⟩
      obtain ⟨e, he, heq⟩ := List.mem_map.mp hmem
      obtain rfl : e.1 = l := heq
      obtain rfl | he := Dict.mem_set he
      · exact hlk rfl
      · exact hl (List.mem_map_of_mem he)

/-- Setting a key to the value it has changes nothing. -/
theorem Dict.set_same {d : Dict} {k : String} {v : Value} (h : d.get? k = some v) :
    d.set k v = d := by
  induction d with
  | nil => cases h
  | cons f d ih =>
    obtain ⟨l, w⟩ := f
    rw [Dict.get?_cons] at h
    by_cases hl : l = k
    · rw [if_pos hl] at h
      rw [Dict.set, if_pos hl, Option.some.inj h]
    · rw [if_neg hl] at h
      rw [Dict.set, if_neg hl, ih h]

/-- A `dict` is the list of its items. -/
theorem Dict.entries_eq {d : Dict} (hd : (d.map Prod.fst).Nodup) :
    d = (d.map Prod.fst).map fun k => (k, d.get k) := by
  rw [List.map_map]
  conv_lhs => rw [← List.map_id d]
  refine List.map_congr_left fun e he => ?_
  simp [Dict.get, Dict.get?_of_mem hd he]

theorem Value.pyEqDict_iff {es d : Dict} : Value.pyEqDict es d = true ↔
    ∀ e ∈ es, ∃ u, d.get? e.1 = some u ∧ e.2.pyEq u = true := by
  induction es with
  | nil => exact ⟨fun _ => nofun, fun _ => rfl⟩
  | cons e es ih =>
    obtain ⟨k, v⟩ := e
    rw [Value.pyEqDict, Bool.and_eq_true, ih, List.forall_mem_cons]
    refine and_congr_left' ?_
    cases Dict.get? d k <;> simp

/-- Two `dict`s with sorted keys are equal when they are item by item. -/
theorem Value.pyEq_sorted_iff {d e : Dict} (hd : (d.map Prod.fst).Pairwise (· < ·))
    (he : (e.map Prod.fst).Pairwise (· < ·)) : (Value.dict d).pyEq (.dict e) = true ↔
      d.map Prod.fst = e.map Prod.fst ∧
        ∀ k ∈ d.map Prod.fst, (d.get k).pyEq (e.get k) = true := by
  have hdn : (d.map Prod.fst).Nodup := hd.imp ne_of_lt
  have hen : (e.map Prod.fst).Nodup := he.imp ne_of_lt
  rw [Value.pyEq, Bool.and_eq_true, beq_iff_eq, Value.pyEqDict_iff]
  constructor
  · rintro ⟨hlength, hitems⟩
    have hget : ∀ k ∈ d.map Prod.fst, ∃ u, e.get? k = some u ∧ (d.get k).pyEq u = true := by
      rintro k hk
      obtain ⟨f, hf, rfl⟩ := List.mem_map.mp hk
      obtain ⟨u, hu, heq⟩ := hitems f hf
      exact ⟨u, hu, by rw [Dict.get, Dict.get?_of_mem hdn hf]; exact heq⟩
    have hsubset : d.map Prod.fst ⊆ e.map Prod.fst := by
      intro k hk
      obtain ⟨u, hu, -⟩ := hget k hk
      by_contra hnot
      rw [Dict.get?_eq_none.mpr hnot] at hu
      cases hu
    have hperm : (d.map Prod.fst).Perm (e.map Prod.fst) :=
      (List.subperm_of_subset hdn hsubset).perm_of_length_le (by simp [hlength])
    refine ⟨hperm.eq_of_pairwise (fun _ _ _ _ hab hba => (lt_asymm hab hba).elim) hd he, ?_⟩
    intro k hk
    obtain ⟨u, hu, heq⟩ := hget k hk
    rw [e.get_eq, hu]
    exact heq
  · rintro ⟨hkeys, hitems⟩
    refine ⟨by simpa using congrArg List.length hkeys, fun f hf => ?_⟩
    have hk : f.1 ∈ d.map Prod.fst := List.mem_map_of_mem hf
    have hitem := hitems f.1 hk
    rw [Dict.get, Dict.get?_of_mem hdn hf] at hitem
    obtain ⟨g, hg, heq⟩ := List.mem_map.mp (hkeys ▸ hk)
    have hget : e.get? f.1 = some g.2 := heq ▸ Dict.get?_of_mem hen hg
    refine ⟨g.2, hget, ?_⟩
    rwa [e.get_eq, hget] at hitem

/-- `None`, an `int` or a `str`. -/
def Value.isExact : Value → Bool
  | .null | .int _ | .str _ => true
  | _ => false

/-- Of these values only one equals a given value. -/
theorem Value.eq_of_pyEq {a b v : Value} (ha : a.isExact = true) (hb : b.isExact = true)
    (hav : a.pyEq v = true) (hbv : b.pyEq v = true) : a = b := by
  have hnull : Value.null.pyEq v = true → v = .null := by cases v <;> simp [Value.pyEq]
  have hstr : ∀ s, (Value.str s).pyEq v = true → v = .str s := by
    cases v <;> simp +contextual [Value.pyEq]
  have hint : ∀ n : Int, (Value.int n).pyEq v = true → v.number? = some (n : Rat) :=
    fun n => (Value.pyEq_of_number rfl).mp
  cases a <;> cases ha <;> cases b <;> cases hb
  · rfl
  · cases hnull hav
    cases hint _ hbv
  · cases hnull hav
    cases hstr _ hbv
  · cases hnull hbv
    cases hint _ hav
  · have hnumber := (hint _ hav).symm.trans (hint _ hbv)
    rw [Rat.intCast_injective (Option.some.inj hnumber)]
  · cases hstr _ hbv
    cases hint _ hav
  · cases hnull hbv
    cases hstr _ hav
  · cases hstr _ hav
    cases hint _ hbv
  · exact (hstr _ hav).symm.trans (hstr _ hbv)

theorem Value.pyEq_self {v : Value} (hv : v.isExact = true) : v.pyEq v = true := by
  cases v <;> cases hv <;> simp [Value.pyEq, Value.number?]

theorem Dict.isExact_get {d : Dict} (hd : ∀ x ∈ d, x.2.isExact = true) (k : String) :
    (d.get k).isExact = true := by
  rw [Dict.get]
  cases hget : Dict.get? d k with
  | none => rfl
  | some v => exact hd (k, v) (Dict.mem_of_get? hget)

/-- A `dict` of these values equals itself. -/
theorem Dict.pyEq_self {d : Dict} (hkeys : d.keys.Nodup) (hd : ∀ x ∈ d, x.2.isExact = true) :
    (Value.dict d).pyEq (.dict d) = true := by
  rw [Value.pyEq, Bool.and_eq_true, beq_iff_eq, Value.pyEqDict_iff]
  exact ⟨rfl, fun e he => ⟨e.2, Dict.get?_of_mem hkeys he, Value.pyEq_self (hd e he)⟩⟩

/-- Of the `dict`s of these values only one equals a given `dict`. -/
theorem Dict.eq_of_pyEq {d e f : Dict} (hd : (d.map Prod.fst).Pairwise (· < ·))
    (he : (e.map Prod.fst).Pairwise (· < ·)) (hf : (f.map Prod.fst).Pairwise (· < ·))
    (hdx : ∀ x ∈ d, x.2.isExact = true) (hex : ∀ x ∈ e, x.2.isExact = true)
    (hdf : (Value.dict d).pyEq (.dict f) = true) (hef : (Value.dict e).pyEq (.dict f) = true) :
    d = e := by
  obtain ⟨hdkeys, hditems⟩ := (Value.pyEq_sorted_iff hd hf).mp hdf
  obtain ⟨hekeys, heitems⟩ := (Value.pyEq_sorted_iff he hf).mp hef
  have hkeys := hdkeys.trans hekeys.symm
  rw [Dict.entries_eq (hd.imp ne_of_lt), Dict.entries_eq (d := e) (he.imp ne_of_lt), ← hkeys]
  refine List.map_congr_left fun k hk => ?_
  rw [Value.eq_of_pyEq (Dict.isExact_get hdx k) (Dict.isExact_get hex k) (hditems k hk)
    (heitems k (hkeys ▸ hk))]

theorem Value.pyEqDict_tail {k : String} {w : Value} {es fs : List (String × Value)}
    (hk : k ∉ es.map Prod.fst) (h : Value.pyEqDict es ((k, w) :: fs) = true) :
    Value.pyEqDict es fs = true := by
  rw [Value.pyEqDict_iff] at h ⊢
  intro e he
  obtain ⟨u, hu, heq⟩ := h e he
  have hne : k ≠ e.1 := by
    rintro rfl
    exact hk (List.mem_map_of_mem he)
  rw [Dict.get?_cons, if_neg hne] at hu
  exact ⟨u, hu, heq⟩

mutual

/-- No `bool`, no `float` and no `bytes` inside. -/
def Value.allExact : Value → Bool
  | .null | .int _ | .str _ => true
  | .list xs => Value.allExactItems xs
  | .dict es => Value.allExactEntries es
  | _ => false

def Value.allExactItems : List Value → Bool
  | [] => true
  | x :: xs => x.allExact && Value.allExactItems xs

def Value.allExactEntries : List (String × Value) → Bool
  | [] => true
  | (_, v) :: es => v.allExact && Value.allExactEntries es

end

/-! ## Items of containers -/

/-- How containers compare their items: an object equals itself, whatever its `==` says. -/
def Value.isOrEq (v w : Value) : Bool := decide (v = w) || v.pyEq w

theorem Value.isOrEq_refl (v : Value) : v.isOrEq v = true := by simp [Value.isOrEq]

theorem Value.isOrEq_trans {u v w : Value} (huv : u.isOrEq v = true) (hvw : v.isOrEq w = true) :
    u.isOrEq w = true := by
  simp only [Value.isOrEq, Bool.or_eq_true, decide_eq_true_eq] at huv hvw ⊢
  obtain rfl | huv := huv
  · exact hvw
  · obtain rfl | hvw := hvw
    · exact Or.inr huv
    · exact Or.inr (Value.pyEq_trans huv hvw)

/-! ## `<` -/

/-- The place of a number that is not `nan` among the numbers and the two infinities. -/
def Value.extended? : Value → Option (WithBot (WithTop Rat))
  | .float (.inf neg) => some (if neg then ⊥ else ((⊤ : WithTop Rat) : WithBot (WithTop Rat)))
  | v => v.number?.map fun q => ((q : WithTop Rat) : WithBot (WithTop Rat))

/-- `bool`, `int` and `float`. -/
def Value.isNumber : Value → Bool
  | .bool _ | .int _ | .float _ => true
  | _ => false

/-- `v < w` for two numbers; `nan` is below and above nothing. -/
def Value.ltNumber (v w : Value) : Py Bool :=
  if v.isNumber ∧ w.isNumber then
    match v.extended?, w.extended? with
    | some x, some y => .ok (decide (x < y))
    | _, _ => .ok false
  else .error (.type "'<' not supported between these instances")

mutual

/-- `v < w`. -/
def Value.lt : Value → Value → Py Bool
  | .str a, .str b => .ok (decide (a < b))
  | .bytes a, .bytes b => .ok (decide (a.map UInt8.toNat < b.map UInt8.toNat))
  | .list as, .list bs => Value.ltList as bs
  | v, w => v.ltNumber w

/-- `<` of two lists: the first items that differ decide. -/
def Value.ltList : List Value → List Value → Py Bool
  | _, [] => .ok false
  | [], _ :: _ => .ok true
  | a :: as, b :: bs => if a.isOrEq b then Value.ltList as bs else a.lt b

end

/-- Only numbers are below a number that is not `nan`. -/
theorem Value.lt_extended {v w : Value} {y : WithBot (WithTop Rat)} {b : Bool}
    (hw : w.extended? = some y) (hlt : v.lt w = .ok b) :
    v.extended? = none ∧ b = false ∨ ∃ x, v.extended? = some x ∧ b = decide (x < y) := by
  have hnumber : v.ltNumber w = .ok b := by
    cases w with
    | str s => cases hw
    | bytes s => cases hw
    | list s => cases hw
    | _ => cases v <;> exact hlt
  unfold Value.ltNumber at hnumber
  split at hnumber
  · rw [hw] at hnumber
    cases hv : v.extended? with
    | none =>
      rw [hv] at hnumber
      exact Or.inl ⟨rfl, (Except.ok.inj hnumber).symm⟩
    | some x =>
      rw [hv] at hnumber
      exact Or.inr ⟨x, rfl, (Except.ok.inj hnumber).symm⟩
  · cases hnumber

/-! ## `max` -/

/-- The largest of `m` and the values that follow it: the first of several equal ones. -/
def maxFrom (m : Value) : List Value → Py Value
  | [] => .ok m
  | v :: vs => do
    let larger ← m.lt v
    maxFrom (if larger then v else m) vs

/-- `max(vs)`. -/
def maxPy : List Value → Py Value
  | [] => .error (.value "max() iterable argument is empty")
  | v :: vs => maxFrom v vs

theorem maxFrom_mem {m r : Value} {vs : List Value} (hr : maxFrom m vs = .ok r) :
    r ∈ m :: vs := by
  induction vs generalizing m with
  | nil =>
    cases hr
    exact List.mem_singleton_self _
  | cons v vs ih =>
    obtain ⟨larger, -, hr⟩ := bind_eq_ok.mp hr
    obtain hmem | hmem := List.mem_cons.mp (ih hr)
    · rw [hmem]
      cases larger <;> simp
    · simp [hmem]

/-- A maximum that is no `nan` is above all numbers of the list that are not `nan`. -/
theorem maxFrom_le {m r : Value} {vs : List Value} {y : WithBot (WithTop Rat)}
    (hr : maxFrom m vs = .ok r) (hy : r.extended? = some y) :
    (∃ x, m.extended? = some x ∧ x ≤ y) ∧ ∀ v ∈ vs, ∀ z, v.extended? = some z → z ≤ y := by
  induction vs generalizing m with
  | nil =>
    cases hr
    exact ⟨⟨y, hy, le_rfl⟩, nofun⟩
  | cons v vs ih =>
    obtain ⟨larger, hlarger, hr⟩ := bind_eq_ok.mp hr
    obtain ⟨⟨x, hx, hxy⟩, hrest⟩ := ih hr
    cases larger with
    | true =>
      rw [if_pos rfl] at hx
      obtain ⟨-, hfalse⟩ | ⟨x', hm, hlt⟩ := Value.lt_extended hx hlarger
      · cases hfalse
      · have hlt : x' < x := of_decide_eq_true hlt.symm
        refine ⟨⟨x', hm, (hlt.trans_le hxy).le⟩, fun w hw z hz => ?_⟩
        obtain rfl | hw := List.mem_cons.mp hw
        · rw [← Option.some.inj (hx.symm.trans hz)]
          exact hxy
        · exact hrest w hw z hz
    | false =>
      rw [if_neg Bool.false_ne_true] at hx
      refine ⟨⟨x, hx, hxy⟩, fun w hw z hz => ?_⟩
      obtain rfl | hw := List.mem_cons.mp hw
      · obtain ⟨hnone, -⟩ | ⟨x', hm, hlt⟩ := Value.lt_extended hz hlarger
        · cases hnone.symm.trans hx
        · obtain rfl := Option.some.inj (hm.symm.trans hx)
          exact (not_lt.mp (of_decide_eq_false hlt.symm)).trans hxy
      · exact hrest w hw z hz

theorem maxPy_mem {r : Value} {vs : List Value} (hr : maxPy vs = .ok r) : r ∈ vs := by
  cases vs with
  | nil => cases hr
  | cons v vs => exact maxFrom_mem hr

theorem maxPy_le {r : Value} {vs : List Value} {y : WithBot (WithTop Rat)}
    (hr : maxPy vs = .ok r) (hy : r.extended? = some y) :
    ∀ v ∈ vs, ∀ z, v.extended? = some z → z ≤ y := by
  cases vs with
  | nil => cases hr
  | cons v vs =>
    obtain ⟨⟨x, hx, hxy⟩, hrest⟩ := maxFrom_le hr hy
    intro w hw z hz
    obtain rfl | hw := List.mem_cons.mp hw
    · rw [← Option.some.inj (hx.symm.trans hz)]
      exact hxy
    · exact hrest w hw z hz

/-! ## `sorted` -/

variable {α : Type}

/-- Put `x` behind the items that are not above it. -/
def insertPy (lt : α → α → Py Bool) (x : α) : List α → Py (List α)
  | [] => .ok [x]
  | y :: ys => do
    if ← lt x y then .ok (x :: y :: ys)
    else do
      let rest ← insertPy lt x ys
      .ok (y :: rest)

/-- `sorted(xs)` for the comparison `lt`: stable, items from left to right. -/
def sortPy (lt : α → α → Py Bool) (xs : List α) : Py (List α) :=
  xs.foldlM (fun sorted x => insertPy lt x sorted) []

theorem insertPy_perm {lt : α → α → Py Bool} {x : α} {ys zs : List α}
    (h : insertPy lt x ys = .ok zs) : zs.Perm (x :: ys) := by
  induction ys generalizing zs with
  | nil =>
    cases h
    exact .refl _
  | cons y ys ih =>
    obtain ⟨below, -, h⟩ := bind_eq_ok.mp h
    split at h
    · cases h
      exact .refl _
    · obtain ⟨rest, hrest, h⟩ := bind_eq_ok.mp h
      cases h
      exact ((ih hrest).cons y).trans (.swap x y ys)

theorem sortPy_perm {lt : α → α → Py Bool} {xs ys : List α} (h : sortPy lt xs = .ok ys) :
    ys.Perm xs := by
  have hfold : ∀ {xs sorted ys : List α},
      xs.foldlM (fun sorted x => insertPy lt x sorted) sorted = .ok ys →
      ys.Perm (sorted ++ xs) := by
    intro xs
    induction xs with
    | nil =>
      intro sorted ys h
      cases foldlM_nil_eq_ok.mp h
      rw [List.append_nil]
    | cons x xs ih =>
      intro sorted ys h
      obtain ⟨more, hmore, h⟩ := foldlM_cons_eq_ok.mp h
      have hinsert := (insertPy_perm hmore).append_right xs
      exact (ih h).trans (hinsert.trans List.perm_middle.symm)
  exact hfold h

end Python
