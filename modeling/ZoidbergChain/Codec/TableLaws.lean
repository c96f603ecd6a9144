import ZoidbergChain.Codec.Tables
import ZoidbergChain.Python.Control
import ZoidbergChain.Scan.Prefixes
import ZoidbergChain.Scan.Stride

/-!
# Tables are codes

- `IsCode`: every symbol has as many rows as its norm says, and its rows lead to every state,
  each to states of its own.
- `isCode_of_buildTable`: what `build_table` returns is a code.
-/

namespace ZoidbergChain

open Python

namespace Codec

/-! ## Cells -/

/-- The cells that hold a symbol. -/
def filled (cells : List Int) : List Int := cells.filter (0 ≤ ·)

/-- A written symbol adds one filled cell at most. -/
theorem filled_set (cells : List Int) (i symbol : Nat) :
    (filled (cells.set i symbol)).Subperm ((symbol : Int) :: filled cells) := by
  by_cases hi : i < cells.length
  · have hset : filled (cells.set i symbol) =
        filled (cells.take i) ++ (symbol : Int) :: filled (cells.drop (i + 1)) := by
      unfold filled
      rw [List.set_eq_take_append_cons_drop, if_pos hi, List.filter_append,
        List.filter_cons_of_pos (by simp)]
    have hrest : (filled (cells.take i) ++ filled (cells.drop (i + 1))).Sublist (filled cells) := by
      unfold filled
      rw [← List.filter_append]
      refine List.Sublist.filter _ ?_
      conv_rhs => rw [← List.take_append_drop i cells]
      exact (List.drop_sublist_drop_left cells (Nat.le_succ i)).append_left _
    rw [hset]
    exact List.perm_middle.subperm.trans (hrest.cons_cons _).subperm
  · rw [List.set_eq_of_length_le (not_lt.mp hi)]
    exact List.Subperm.cons_self

/-- Writing symbols into cells. -/
structure Fills (cells symbols cells' : List Int) : Prop where
  length : cells'.length = cells.length
  subperm : (filled cells').Subperm (symbols ++ filled cells)

theorem Fills.refl (cells : List Int) : Fills cells [] cells := ⟨rfl, List.Subperm.refl _⟩

theorem Fills.set (cells : List Int) (i symbol : Nat) :
    Fills cells [(symbol : Int)] (cells.set i symbol) :=
  ⟨List.length_set .., filled_set cells i symbol⟩

theorem Fills.trans {cells cells' cells'' symbols symbols' : List Int}
    (h : Fills cells symbols cells') (h' : Fills cells' symbols' cells'') :
    Fills cells (symbols ++ symbols') cells'' where
  length := h'.length.trans h.length
  subperm := by
    have hstep := h'.subperm.trans ((List.subperm_append_left symbols').mpr h.subperm)
    refine hstep.trans (List.Perm.subperm ?_)
    rw [← List.append_assoc]
    exact List.perm_append_comm.append_right _

/-- As many symbols as there are cells stand in one cell each, once all cells are filled. -/
theorem Fills.perm {cells symbols cells' : List Int} (h : Fills cells symbols cells')
    (hempty : filled cells = []) (hlength : symbols.length = cells.length)
    (hfull : ∀ c ∈ cells', 0 ≤ c) : cells'.Perm symbols := by
  have hall : filled cells' = cells' :=
    List.filter_eq_self.mpr fun c hc => decide_eq_true (hfull c hc)
  have hsub := h.subperm
  rw [hempty, List.append_nil, hall] at hsub
  exact hsub.perm_of_length_le (by rw [hlength, h.length])

/-! ## The symbols of a norm -/

/-- The symbols of the high cells. -/
def reservedOf (entries : List (Int × Nat)) : List Int :=
  (entries.filter (·.1 = -1)).map fun e => (e.2 : Int)

/-- The symbols of the low cells. -/
def spreadOf (entries : List (Int × Nat)) : List Int :=
  entries.flatMap fun e => List.replicate e.1.toNat (e.2 : Int)

/-- Every symbol as many times as its probability says. -/
def symbolsOf (entries : List (Int × Nat)) : List Int :=
  entries.flatMap fun e => List.replicate e.1.natAbs (e.2 : Int)

theorem reservedOf_append_spreadOf {entries : List (Int × Nat)} (h : ∀ e ∈ entries, -1 ≤ e.1) :
    (reservedOf entries ++ spreadOf entries).Perm (symbolsOf entries) := by
  induction entries with
  | nil => exact .nil
  | cons e entries ih =>
    obtain ⟨he, hrest⟩ := List.forall_mem_cons.mp h
    have hih := ih hrest
    by_cases hlow : e.1 = -1
    · have hreserved : reservedOf (e :: entries) = (e.2 : Int) :: reservedOf entries := by
        unfold reservedOf
        rw [List.filter_cons_of_pos (by simpa using hlow), List.map_cons]
      have hspread : spreadOf (e :: entries) = spreadOf entries := by
        unfold spreadOf
        rw [List.flatMap_cons, hlow]
        rfl
      have hsymbols : symbolsOf (e :: entries) = (e.2 : Int) :: symbolsOf entries := by
        unfold symbolsOf
        rw [List.flatMap_cons, hlow]
        rfl
      rw [hreserved, hspread, hsymbols]
      exact hih.cons _
    · have hreserved : reservedOf (e :: entries) = reservedOf entries := by
        unfold reservedOf
        rw [List.filter_cons_of_neg (by simpa using hlow)]
      have habs : e.1.natAbs = e.1.toNat := by omega
      have hspread : spreadOf (e :: entries) =
          List.replicate e.1.natAbs (e.2 : Int) ++ spreadOf entries := by
        rw [habs]
        rfl
      rw [hreserved, hspread]
      refine (List.perm_append_comm_assoc ..).trans ?_
      exact hih.append_left _

theorem length_symbolsOf (norm : List Int) (k : Nat) :
    (symbolsOf (norm.zipIdx k)).length = (norm.map Int.natAbs).sum := by
  induction norm generalizing k with
  | nil => rfl
  | cons count norm ih =>
    show (List.replicate count.natAbs (k : Int) ++ symbolsOf (norm.zipIdx (k + 1))).length = _
    rw [List.length_append, List.length_replicate, ih, List.map_cons, List.sum_cons]

theorem count_symbolsOf (norm : List Int) (k s : Nat) :
    (symbolsOf (norm.zipIdx k)).count ((k + s : Nat) : Int) = (norm.getD s 0).natAbs := by
  induction norm generalizing k s with
  | nil => rfl
  | cons count norm ih =>
    show (List.replicate count.natAbs (k : Int) ++ symbolsOf (norm.zipIdx (k + 1))).count _ = _
    rw [List.count_append]
    cases s with
    | zero =>
      have hrest : (symbolsOf (norm.zipIdx (k + 1))).count ((k + 0 : Nat) : Int) = 0 := by
        refine List.count_eq_zero.mpr fun hmem => ?_
        obtain ⟨e, he, hmem⟩ := List.mem_flatMap.mp hmem
        have hk := List.le_snd_of_mem_zipIdx he
        have heq := List.eq_of_mem_replicate hmem
        omega
      rw [hrest]
      simp
    | succ s =>
      have hne : (List.replicate count.natAbs (k : Int)).count ((k + (s + 1) : Nat) : Int) = 0 := by
        refine List.count_eq_zero.mpr fun hmem => ?_
        have heq := List.eq_of_mem_replicate hmem
        omega
      have hshift : k + (s + 1) = k + 1 + s := by omega
      rw [hne, hshift, ih, Nat.zero_add, List.getD_cons_succ]

/-! ## The loops -/

theorem fills_of_reserve {entries : List (Int × Nat)} {cells cells' : List Int} {high high' : Int}
    (hok : reserve entries (cells, high) = .ok (cells', high')) :
    Fills cells (reservedOf entries) cells' ∧ ∀ e ∈ entries, -1 ≤ e.1 := by
  induction entries generalizing cells high with
  | nil =>
    obtain ⟨rfl, -⟩ := Prod.mk.inj (Except.ok.inj hok)
    exact ⟨.refl cells, by simp⟩
  | cons e entries ih =>
    obtain ⟨count, symbol⟩ := e
    obtain ⟨_, hlow, hok⟩ := bind_eq_ok.mp hok
    have hlow := require_eq_ok.mp hlow
    by_cases hcount : count = -1
    · rw [if_pos hcount] at hok
      obtain ⟨hfills, hall⟩ := ih hok
      have hreserved : reservedOf ((count, symbol) :: entries) =
          [(symbol : Int)] ++ reservedOf entries := by
        unfold reservedOf
        rw [List.filter_cons_of_pos (by simpa using hcount), List.map_cons]
        rfl
      rw [hreserved]
      exact ⟨(Fills.set cells _ symbol).trans hfills, List.forall_mem_cons.mpr ⟨hlow, hall⟩⟩
    · rw [if_neg hcount] at hok
      obtain ⟨hfills, hall⟩ := ih hok
      have hreserved : reservedOf ((count, symbol) :: entries) = reservedOf entries := by
        unfold reservedOf
        rw [List.filter_cons_of_neg (by simpa using hcount)]
      rw [hreserved]
      exact ⟨hfills, List.forall_mem_cons.mpr ⟨hlow, hall⟩⟩

variable {size stride : Nat} {high : Int}

theorem fills_of_spreadCells {s s' : Spread} {n symbol : Nat}
    (hok : (List.replicate n symbol).foldlM (spreadCell size stride high) s = .ok s') :
    Fills s.symbols (List.replicate n (symbol : Int)) s'.symbols := by
  induction n generalizing s with
  | zero =>
    obtain rfl := Except.ok.inj hok
    exact .refl _
  | succ n ih =>
    rw [List.replicate_succ, foldlM_cons_eq_ok] at hok
    obtain ⟨m, hm, hok⟩ := hok
    obtain ⟨moved, -, hm⟩ := bind_eq_ok.mp hm
    obtain rfl := pure_eq_ok.mp hm
    exact (Fills.set s.symbols s.position symbol).trans (ih hok)

theorem fills_of_spread {entries : List (Int × Nat)} {s s' : Spread}
    (hok : entries.foldlM (fun s entry =>
      (List.replicate entry.1.toNat entry.2).foldlM (spreadCell size stride high) s) s = .ok s') :
    Fills s.symbols (spreadOf entries) s'.symbols := by
  induction entries generalizing s with
  | nil =>
    obtain rfl := Except.ok.inj hok
    exact .refl _
  | cons e entries ih =>
    obtain ⟨m, hm, hok⟩ := foldlM_cons_eq_ok.mp hok
    exact (fills_of_spreadCells hm).trans (ih hok)

/-! ## Rows -/

/-- The row of a state: the numbers with the state as a prefix, without their highest bit. -/
theorem rowOf_eq_ok {log symbol state : Nat} {r : Row} (hstate : state ≠ 0) :
    rowOf log symbol state = .ok r ↔ Nat.log 2 state ≤ log ∧
      r = ⟨symbol, Prefixes.rest log state,
        (Prefixes.first log state : Int) - (2 ^ log : Nat)⟩ := by
  have hlength : (bitLength state : Int) - 1 = Nat.log 2 state := by
    unfold bitLength
    rw [if_neg hstate]
    push_cast
    ring
  have hwidth : ((log : Int) - (bitLength state - 1)).toNat = Prefixes.rest log state := by
    rw [hlength]
    unfold Prefixes.rest
    omega
  unfold rowOf
  dsimp only
  rw [hwidth, hlength]
  constructor
  · intro hok
    obtain ⟨_, hpos, hok⟩ := bind_eq_ok.mp hok
    have hpos := require_eq_ok.mp hpos
    exact ⟨by omega, (pure_eq_ok.mp hok).symm⟩
  · rintro ⟨hlog, rfl⟩
    rw [require_pos (by omega)]
    rfl

/-- The state of the last loop behind the cells `done`: the rows stand for pairs of a symbol and
a state, and the states of a symbol are numbered from its start. -/
structure Numbered (log : Nat) (start : List Nat) (done : List Int) (s : List Nat × List Row)
    (pairs : List (Nat × Nat)) : Prop where
  rows : List.Forall₂ (fun p r => p.2 ≠ 0 ∧ rowOf log p.1 p.2 = .ok r) pairs s.2
  symbols : pairs.map (fun p => (p.1 : Int)) = done
  length : s.1.length = start.length
  following : ∀ i : Nat, s.1.getD i 0 = start.getD i 0 + done.count (i : Int)
  range : ∀ p ∈ pairs, start.getD p.1 0 ≤ p.2 ∧ p.2 < start.getD p.1 0 + done.count (p.1 : Int)
  all : ∀ i j : Nat, j < done.count (i : Int) → (i, start.getD i 0 + j) ∈ pairs
  apart : pairs.Pairwise fun p q => p.1 = q.1 → p.2 < q.2

theorem numbered_step {log : Nat} {start : List Nat} {done : List Int} {s s' : List Nat × List Row}
    {pairs : List (Nat × Nat)} {symbol : Int} (h : Numbered log start done s pairs)
    (hok : numberCell log s symbol = .ok s') :
    ∃ p, Numbered log start (done ++ [symbol]) s' (pairs ++ [p]) := by
  obtain ⟨_, hvalid, hok⟩ := bind_eq_ok.mp hok
  obtain ⟨row, hrow, hok⟩ := bind_eq_ok.mp hok
  obtain rfl := pure_eq_ok.mp hok
  obtain ⟨hsymbol, hstate⟩ := not_or.mp (require_eq_ok.mp hvalid)
  obtain ⟨i, rfl⟩ := Int.eq_ofNat_of_zero_le (not_lt.mp hsymbol)
  rw [Int.toNat_natCast] at *
  have hi : i < s.1.length := by
    by_contra hge
    exact hstate (List.getD_eq_default _ _ (not_lt.mp hge))
  have hcount : ∀ j : Nat, (done ++ [(i : Int)]).count (j : Int) =
      done.count (j : Int) + if i = j then 1 else 0 := by
    intro j
    rw [List.count_append, List.count_singleton]
    by_cases hij : i = j
    · simp [hij]
    · simp [hij]
  refine ⟨(i, s.1.getD i 0), ?_, ?_, ?_, ?_, ?_, ?_, ?_⟩
  · exact List.rel_append h.rows (.cons ⟨hstate, hrow⟩ .nil)
  · rw [List.map_append, h.symbols]
    rfl
  · rw [List.length_set, h.length]
  · intro j
    rw [hcount]
    by_cases hij : i = j
    · subst hij
      rw [List.getD_eq_getElem _ _ (by rw [List.length_set]; exact hi), List.getElem_set_self,
        if_pos rfl, h.following]
      omega
    · have hset : (s.1.set i (s.1.getD i 0 + 1)).getD j 0 = s.1.getD j 0 := by
        simp only [List.getD_eq_getElem?_getD, List.getElem?_set_ne hij]
      rw [hset, if_neg hij, h.following]
      rfl
  · intro p hp
    rw [hcount]
    obtain hp | hp := List.mem_append.mp hp
    · obtain ⟨hlow, hhigh⟩ := h.range p hp
      exact ⟨hlow, by omega⟩
    · obtain rfl := List.mem_singleton.mp hp
      dsimp only
      rw [if_pos rfl, h.following]
      exact ⟨by omega, by omega⟩
  · intro j k hk
    rw [hcount] at hk
    by_cases hold : k < done.count (j : Int)
    · exact List.mem_append_left _ (h.all j k hold)
    · obtain rfl : i = j := by
        by_contra hij
        rw [if_neg hij] at hk
        omega
      have hlast : k = done.count (i : Int) := by
        rw [if_pos rfl] at hk
        omega
      rw [hlast, ← h.following]
      exact List.mem_append_right _ (List.mem_singleton.mpr rfl)
  · refine List.pairwise_append.mpr ⟨h.apart, List.pairwise_singleton .., ?_⟩
    intro p hp q hq hpq
    obtain rfl := List.mem_singleton.mp hq
    obtain ⟨-, hlt⟩ := h.range p hp
    show p.2 < s.1.getD i 0
    rw [h.following, ← show p.1 = i from hpq]
    exact hlt

/-- The last loop numbers the states of every symbol. -/
theorem numbered_of_foldlM {log : Nat} {start : List Nat} {cells done : List Int}
    {s s' : List Nat × List Row} {pairs : List (Nat × Nat)} (h : Numbered log start done s pairs)
    (hok : cells.foldlM (numberCell log) s = .ok s') :
    ∃ pairs', Numbered log start (done ++ cells) s' pairs' := by
  induction cells generalizing done s pairs with
  | nil =>
    obtain rfl := Except.ok.inj hok
    rw [List.append_nil]
    exact ⟨pairs, h⟩
  | cons symbol cells ih =>
    obtain ⟨m, hm, hok⟩ := foldlM_cons_eq_ok.mp hok
    obtain ⟨p, hp⟩ := numbered_step h hm
    obtain ⟨pairs', hpairs'⟩ := ih hp hok
    rw [List.append_assoc] at hpairs'
    exact ⟨pairs', hpairs'⟩

theorem numbered_start (log : Nat) (start : List Nat) : Numbered log start [] (start, []) [] where
  rows := .nil
  symbols := rfl
  length := rfl
  following _ := rfl
  range _ hp := by cases hp
  all _ j hj := absurd hj (Nat.not_lt_zero j)
  apart := .nil

/-! ## Codes -/

/-- The next states of a row end before this one. -/
def Row.stop (r : Row) : Int := r.baseline + (2 ^ r.width : Nat)

/-- The rows of a table with `2 ^ log` states for the probabilities of a norm. A symbol of
probability 0 has no row, and every other one has rows that lead to all states. -/
structure IsCode (norm : List Int) (log : Nat) (rows : List Row) : Prop where
  length : rows.length = 2 ^ log
  count : ∀ s, rows.countP (·.symbol = s) = (norm.getD s 0).natAbs
  apart : rows.Pairwise fun r r' => r.symbol = r'.symbol →
    r.stop ≤ r'.baseline ∨ r'.stop ≤ r.baseline
  covers : ∀ r ∈ rows, ∀ x : Int,
    (∃ r' ∈ rows, r'.symbol = r.symbol ∧ r'.baseline ≤ x ∧ x < r'.stop) ↔
      0 ≤ x ∧ x < (2 ^ log : Nat)

/-- Rows that stand for the states from `n` up to `2 * n` of every symbol are a code. -/
theorem isCode_of_numbered {norm : List Int} {log : Nat} {cells : List Int}
    {s : List Nat × List Row} {pairs : List (Nat × Nat)}
    (h : Numbered log (initialStates norm) cells s pairs)
    (hlength : cells.length = 2 ^ log)
    (hcount : ∀ i : Nat, cells.count (i : Int) = (norm.getD i 0).natAbs)
    (hstart : ∀ i, (initialStates norm).getD i 0 = (norm.getD i 0).natAbs) :
    IsCode norm log s.2 := by
  have hsymbol : ∀ (p : Nat × Nat) (r : Row), (p.2 ≠ 0 ∧ rowOf log p.1 p.2 = .ok r) →
      Nat.log 2 p.2 ≤ log ∧
      r.symbol = p.1 ∧ r.baseline = (Prefixes.first log p.2 : Int) - (2 ^ log : Nat) ∧
        r.stop = (Prefixes.stop log p.2 : Int) - (2 ^ log : Nat) := by
    rintro p r ⟨hne, hrow⟩
    obtain ⟨hlog, rfl⟩ := (rowOf_eq_ok hne).mp hrow
    refine ⟨hlog, rfl, rfl, ?_⟩
    unfold Row.stop
    rw [Prefixes.stop_eq]
    push_cast
    ring
  have hrange : ∀ p ∈ pairs,
      (norm.getD p.1 0).natAbs ≤ p.2 ∧ p.2 < 2 * (norm.getD p.1 0).natAbs := by
    intro p hp
    obtain ⟨hlow, hhigh⟩ := h.range p hp
    rw [hstart] at hlow hhigh
    rw [hcount] at hhigh
    exact ⟨hlow, by omega⟩
  constructor
  · calc s.2.length = pairs.length := h.rows.length_eq.symm
      _ = (pairs.map fun p => (p.1 : Int)).length := (List.length_map _).symm
      _ = 2 ^ log := by rw [h.symbols, hlength]
  · intro i
    rw [← hcount, ← h.symbols]
    have hrows := h.rows
    generalize s.2 = rows at hrows ⊢
    clear * - hrows hsymbol
    induction hrows with
    | nil => rfl
    | @cons p r pairs rows hp hrest ih =>
      obtain ⟨-, hsym, -⟩ := hsymbol p r hp
      rw [List.countP_cons, List.map_cons, List.count_cons, ih, hsym]
      by_cases hi : p.1 = i
      · simp [hi]
      · simp [hi]
  · have hrows := h.rows
    have hapart := h.apart
    generalize s.2 = rows at hrows ⊢
    clear hcount hlength hstart h
    induction hrows with
    | nil => exact .nil
    | @cons p r pairs rows hp hrest ih =>
      obtain ⟨hhead, hapart⟩ := List.pairwise_cons.mp hapart
      obtain ⟨hprange, hrange⟩ := List.forall_mem_cons.mp hrange
      refine List.pairwise_cons.mpr ⟨fun r' hr' hsame => ?_, ih hrange hapart⟩
      obtain ⟨q, hq, hqr⟩ := exists_left_of_forall₂ hrest hr'
      obtain ⟨-, hpsym, hpbase, hpstop⟩ := hsymbol p r hp
      obtain ⟨hqlog, hqsym, hqbase, hqstop⟩ := hsymbol q r' hqr
      have hpq : p.1 = q.1 := by rw [← hpsym, hsame, hqsym]
      have hlt := hhead q hq hpq
      have hqrange := hrange q hq
      rw [← hpq] at hqrange
      have hcases := Prefixes.prefix_apart hprange.1 hlt hqrange.2 hqlog
      rw [hpbase, hpstop, hqbase, hqstop]
      omega
  · intro r hr x
    obtain ⟨p, hp, hpr⟩ := exists_left_of_forall₂ h.rows hr
    obtain ⟨hplog, hpsym, -, -⟩ := hsymbol p r hpr
    constructor
    · rintro ⟨r', hr', -, hlow, hhigh⟩
      obtain ⟨q, -, hqr⟩ := exists_left_of_forall₂ h.rows hr'
      obtain ⟨hqlog, -, hqbase, hqstop⟩ := hsymbol q r' hqr
      obtain ⟨hfirst, hstop⟩ := Prefixes.bounds hqr.1 hqlog
      rw [pow_succ] at hstop
      omega
    · rintro ⟨hlow, hhigh⟩
      obtain ⟨hplow, hphigh⟩ := hrange p hp
      have hn : (norm.getD p.1 0).natAbs ≠ 0 := by omega
      have hle : (norm.getD p.1 0).natAbs ≤ 2 ^ log := by
        rw [← hcount, ← hlength]
        exact List.count_le_length
      obtain ⟨y, rfl⟩ := Int.eq_ofNat_of_zero_le hlow
      obtain ⟨state, hslow, hshigh, hfirst, hstop⟩ := Prefixes.exists_prefix (y := y + 2 ^ log) hn
        (by omega) (by rw [pow_succ]; omega) hle
      have hmem := h.all p.1 (state - (norm.getD p.1 0).natAbs) (by rw [hcount]; omega)
      rw [hstart] at hmem
      have hstate : (norm.getD p.1 0).natAbs + (state - (norm.getD p.1 0).natAbs) = state := by
        omega
      rw [hstate] at hmem
      obtain ⟨r', hr', hqr⟩ := exists_right_of_forall₂ h.rows hmem
      obtain ⟨-, hqsym, hqbase, hqstop⟩ := hsymbol _ r' hqr
      dsimp only at hqbase hqstop
      refine ⟨r', hr', hqsym.trans hpsym.symm, ?_, ?_⟩
      · rw [hqbase]
        omega
      · rw [hqstop]
        omega

/-- The states of a symbol start at its probability. -/
theorem getD_initialStates {norm : List Int} (hnorm : ∀ count ∈ norm, -1 ≤ count) (i : Nat) :
    (initialStates norm).getD i 0 = (norm.getD i 0).natAbs := by
  unfold initialStates
  rw [List.getD_eq_getElem?_getD, List.getD_eq_getElem?_getD, List.getElem?_map]
  cases hget : norm[i]? with
  | none => rfl
  | some count =>
    have hlow := hnorm count (List.mem_of_getElem? hget)
    rw [Option.map_some, Option.getD_some, Option.getD_some]
    split <;> omega

/-- What `build_table` returns is a code. -/
theorem isCode_of_buildTable {norm : List Int} {log : Int} {table : Table}
    (hok : buildTable norm log = .ok table) :
    table.log = log ∧ IsCode norm log.toNat table.rows := by
  obtain ⟨_, hlog, hok⟩ := bind_eq_ok.mp hok
  obtain ⟨_, hsum, hok⟩ := bind_eq_ok.mp hok
  obtain ⟨-, -, hsum, -⟩ := require_eq_ok.mp hsum
  obtain ⟨⟨cells, high⟩, hreserve, hok⟩ := bind_eq_ok.mp hok
  obtain ⟨s, hspread, hok⟩ := bind_eq_ok.mp hok
  obtain ⟨_, -, hok⟩ := bind_eq_ok.mp hok
  obtain ⟨numbered, hnumbered, hok⟩ := bind_eq_ok.mp hok
  obtain rfl := pure_eq_ok.mp hok
  refine ⟨rfl, ?_⟩
  obtain ⟨hreserved, hall⟩ := fills_of_reserve hreserve
  have hfills := hreserved.trans (fills_of_spread hspread)
  obtain ⟨pairs, hpairs⟩ := numbered_of_foldlM (numbered_start log.toNat (initialStates norm))
    hnumbered
  rw [List.nil_append] at hpairs
  have hfull : ∀ c ∈ s.symbols, 0 ≤ c := by
    intro c hc
    rw [← hpairs.symbols] at hc
    obtain ⟨p, -, rfl⟩ := List.mem_map.mp hc
    exact Int.natCast_nonneg _
  have hsymbols := reservedOf_append_spreadOf hall
  have hlength : s.symbols.length = 2 ^ log.toNat := by
    rw [hfills.length, List.length_replicate]
  have hperm : s.symbols.Perm (symbolsOf norm.zipIdx) := by
    refine (hfills.perm ?_ ?_ hfull).trans hsymbols
    · unfold filled
      exact List.filter_eq_nil_iff.mpr fun c hc => by
        rw [List.eq_of_mem_replicate hc]
        decide
    · rw [hsymbols.length_eq, length_symbolsOf, hsum, List.length_replicate]
  refine isCode_of_numbered hpairs hlength (fun i => ?_) (getD_initialStates ?_)
  · rw [hperm.count_eq, ← count_symbolsOf norm 0 i, Nat.zero_add]
  · intro count hcount
    rw [← List.zipIdx_map_fst 0 norm] at hcount
    obtain ⟨e, he, rfl⟩ := List.mem_map.mp hcount
    exact hall e he

/-! ## Every norm has a table -/

/-- The norms that `build_table` is for. -/
structure WellFormed (norm : List Int) (log : Int) : Prop where
  bounds : 5 ≤ log ∧ log ≤ 9
  sum : (norm.map Int.natAbs).sum = 2 ^ log.toNat
  symbols : 2 ≤ norm.countP (· ≠ 0)
  low : ∀ count ∈ norm, -1 ≤ count

theorem low_of_mem_zipIdx {norm : List Int} (hlow : ∀ count ∈ norm, -1 ≤ count) :
    ∀ e ∈ norm.zipIdx, -1 ≤ e.1 := fun e he =>
  hlow e.1 (by
    rw [← List.zipIdx_map_fst 0 norm]
    exact List.mem_map_of_mem he)

/-- A cell behind the end holds no symbol. -/
def cell (cells : List Int) (i : Nat) : Int := cells.getD i (-1)

theorem cell_set_self {cells : List Int} {i : Nat} (hi : i < cells.length) (symbol : Int) :
    cell (cells.set i symbol) i = symbol := by
  unfold cell
  rw [List.getD_eq_getElem _ _ (by rw [List.length_set]; exact hi), List.getElem_set_self]

/-- A written symbol empties no cell. -/
theorem cell_set_nonneg {cells : List Int} {i j symbol : Nat} (h : 0 ≤ cell cells j) :
    0 ≤ cell (cells.set i symbol) j := by
  by_cases hij : i = j
  · subst hij
    by_cases hi : i < cells.length
    · rw [cell_set_self hi]
      exact Int.natCast_nonneg _
    · rw [List.set_eq_of_length_le (not_lt.mp hi)]
      exact h
  · unfold cell at *
    rw [List.getD_eq_getElem?_getD, List.getElem?_set_ne hij, ← List.getD_eq_getElem?_getD]
    exact h

/-- The cells above `high` are filled. -/
def HighFilled (cells : List Int) (high : Int) : Prop :=
  ∀ i : Nat, high < i → i < cells.length → 0 ≤ cell cells i

theorem reserve_ok {entries : List (Int × Nat)} {cells : List Int} {high : Int}
    (hlow : ∀ e ∈ entries, -1 ≤ e.1) (hbound : (reservedOf entries).length ≤ high + 1)
    (hhigh : high < cells.length) (hfilled : HighFilled cells high) :
    ∃ cells', reserve entries (cells, high) = .ok (cells', high - (reservedOf entries).length) ∧
      HighFilled cells' (high - (reservedOf entries).length) := by
  induction entries generalizing cells high with
  | nil => exact ⟨cells, by simp [reserve, reservedOf], by simpa [reservedOf] using hfilled⟩
  | cons e entries ih =>
    obtain ⟨count, symbol⟩ := e
    obtain ⟨he, hlow⟩ := List.forall_mem_cons.mp hlow
    unfold reserve
    rw [require_pos he, ok_bind]
    by_cases hcount : count = -1
    · have hreserved : reservedOf ((count, symbol) :: entries) =
          (symbol : Int) :: reservedOf entries := by
        unfold reservedOf
        rw [List.filter_cons_of_pos (by simpa using hcount), List.map_cons]
      rw [hreserved, List.length_cons] at hbound ⊢
      have hnext : HighFilled (cells.set high.toNat symbol) (high - 1) := by
        intro i hi hlength
        rw [List.length_set] at hlength
        by_cases heq : high.toNat = i
        · rw [heq, cell_set_self hlength]
          exact Int.natCast_nonneg _
        · exact cell_set_nonneg (hfilled i (by omega) hlength)
      obtain ⟨cells', hok, hcells'⟩ := ih hlow (by omega) (by rw [List.length_set]; omega) hnext
      have hsub : high - 1 - (reservedOf entries).length =
          high - ((reservedOf entries).length + 1 : Nat) := by omega
      rw [hsub] at hok hcells'
      exact ⟨cells', by rw [if_pos hcount]; exact hok, hcells'⟩
    · have hreserved : reservedOf ((count, symbol) :: entries) = reservedOf entries := by
        unfold reservedOf
        rw [List.filter_cons_of_neg (by simpa using hcount)]
      rw [hreserved] at hbound ⊢
      obtain ⟨cells', hok, hcells'⟩ := ih hlow hbound hhigh hfilled
      exact ⟨cells', by rw [if_neg hcount]; exact hok, hcells'⟩

section Walk

variable {high : Nat}

/-- The walk skips the high cells up to the next low one, which comes after a round at most. -/
theorem skipHigh_ok (hmask : ∀ n, n &&& (size - 1) = n % size) {t : Nat} (ht : t ≤ size) :
    ∃ t', t ≤ t' ∧ t' ≤ size ∧ Stride.place size stride t' ≤ high ∧
      skipHigh size stride high (Stride.place size stride t) t =
        .ok (Stride.place size stride t', t') ∧
      Stride.lowTimes size stride high t' = Stride.lowTimes size stride high t ∧
      ∀ u, t ≤ u → u < t' → high < Stride.place size stride u := by
  obtain ⟨k, hk⟩ : ∃ k, size - t = k := ⟨_, rfl⟩
  induction k generalizing t with
  | zero =>
    obtain rfl : t = size := by omega
    have hplace := @Stride.place_size t stride
    refine ⟨t, le_rfl, le_rfl, by omega, ?_, rfl, by omega⟩
    rw [hplace, skipHigh, if_neg (by omega)]
  | succ k ih =>
    by_cases hlow : Stride.place size stride t ≤ high
    · refine ⟨t, le_rfl, ht, hlow, ?_, rfl, by omega⟩
      rw [skipHigh, if_neg (by omega)]
    · have hlow := not_le.mp hlow
      obtain ⟨t', hle, hsize, hplace, hskip, htimes, hbetween⟩ := ih (t := t + 1) (by omega)
        (by omega)
      refine ⟨t', by omega, hsize, hplace, ?_, ?_, ?_⟩
      · rw [skipHigh, if_pos (by omega), if_neg (by omega), hmask, ← Stride.place_succ]
        exact hskip
      · rw [htimes, Stride.lowTimes_skip hlow]
      · intro u hu hut
        by_cases heq : u = t
        · rw [heq]
          exact hlow
        · exact hbetween u (by omega) hut

/-- The spreading loop with `left` cells to fill: the walk stands at a low cell, and has filled
those that it came by. -/
structure Walked (size stride high left : Nat) (s : Spread) : Prop where
  steps : s.steps ≤ size
  position : s.position = Stride.place size stride s.steps
  low : s.position ≤ high
  left : (Stride.lowTimes size stride high s.steps).card = left
  length : s.symbols.length = size
  passed : ∀ t < s.steps, Stride.place size stride t ≤ high →
    0 ≤ cell s.symbols (Stride.place size stride t)
  high : HighFilled s.symbols high

theorem spreadCell_ok (hmask : ∀ n, n &&& (size - 1) = n % size) (hhigh : high < size) {left : Nat}
    {s : Spread} (h : Walked size stride high (left + 1) s) (symbol : Nat) :
    ∃ s', spreadCell size stride high s symbol = .ok s' ∧ Walked size stride high left s' := by
  have hsteps : s.steps < size := by
    have hpos : 0 < (Stride.lowTimes size stride high s.steps).card := by
      rw [h.left]
      omega
    obtain ⟨t, ht⟩ := Finset.card_pos.mp hpos
    have hmem := Finset.mem_Ico.mp (Finset.mem_filter.mp ht).1
    omega
  have hlow : Stride.place size stride s.steps ≤ high := h.position ▸ h.low
  obtain ⟨t', hle, hsize, hplace, hskip, htimes, hbetween⟩ :=
    @skipHigh_ok size stride high hmask (s.steps + 1) (by omega)
  refine ⟨⟨s.symbols.set s.position symbol, Stride.place size stride t', t'⟩, ?_, ?_⟩
  · unfold spreadCell
    dsimp only
    rw [hmask, h.position, ← Stride.place_succ, hskip]
    rfl
  · have hcard := Stride.card_lowTimes_succ hsteps hlow
    constructor
    · exact hsize
    · rfl
    · exact hplace
    · show (Stride.lowTimes size stride high t').card = left
      rw [htimes]
      have hleft := h.left
      omega
    · exact (List.length_set ..).trans h.length
    · intro t ht hlowt
      by_cases hold : t < s.steps
      · exact cell_set_nonneg (h.passed t hold hlowt)
      by_cases heq : t = s.steps
      · show 0 ≤ cell (s.symbols.set s.position symbol) (Stride.place size stride t)
        rw [heq, h.position, cell_set_self (by rw [h.length]; omega)]
        exact Int.natCast_nonneg _
      · have hgt := hbetween t (by omega) ht
        omega
    · intro i hi hlength
      rw [List.length_set] at hlength
      exact cell_set_nonneg (h.high i hi hlength)

theorem spread_ok (hmask : ∀ n, n &&& (size - 1) = n % size) (hhigh : high < size)
    {entries : List (Int × Nat)} {left : Nat} {s : Spread}
    (h : Walked size stride high ((spreadOf entries).length + left) s) :
    ∃ s', entries.foldlM (fun s entry =>
      (List.replicate entry.1.toNat entry.2).foldlM (spreadCell size stride high) s) s = .ok s' ∧
        Walked size stride high left s' := by
  have hcells : ∀ (n symbol left : Nat) (s : Spread), Walked size stride high (n + left) s →
      ∃ s', (List.replicate n symbol).foldlM (spreadCell size stride high) s = .ok s' ∧
        Walked size stride high left s' := by
    intro n
    induction n with
    | zero => exact fun symbol left s hs => ⟨s, rfl, by rwa [Nat.zero_add] at hs⟩
    | succ n ih =>
      intro symbol left s hs
      rw [Nat.add_right_comm] at hs
      obtain ⟨m, hm, hwalked⟩ := spreadCell_ok hmask hhigh hs symbol
      obtain ⟨s', hs', hleft⟩ := ih symbol left m hwalked
      exact ⟨s', foldlM_cons_eq_ok.mpr ⟨m, hm, hs'⟩, hleft⟩
  induction entries generalizing s with
  | nil => exact ⟨s, rfl, by simpa [spreadOf] using h⟩
  | cons e entries ih =>
    have hlength : (spreadOf (e :: entries)).length = e.1.toNat + (spreadOf entries).length := by
      unfold spreadOf
      rw [List.flatMap_cons, List.length_append, List.length_replicate]
    rw [hlength, Nat.add_assoc] at h
    obtain ⟨m, hm, hwalked⟩ := hcells e.1.toNat e.2 _ s h
    obtain ⟨s', hs', hleft⟩ := ih hwalked
    exact ⟨s', foldlM_cons_eq_ok.mpr ⟨m, hm, hs'⟩, hleft⟩

end Walk

/-- The last loop numbers as many states of a symbol as there are cells of it. -/
theorem numberCells_ok {log : Nat} {start : List Nat} {cells done : List Int}
    {s : List Nat × List Row} {pairs : List (Nat × Nat)} (h : Numbered log start done s pairs)
    (hcells : ∀ c ∈ cells, 0 ≤ c)
    (hstart : ∀ i : Nat, start.getD i 0 = (done ++ cells).count (i : Int))
    (hlength : (done ++ cells).length ≤ 2 ^ log) :
    ∃ s', cells.foldlM (numberCell log) s = .ok s' := by
  induction cells generalizing done s pairs with
  | nil => exact ⟨s, rfl⟩
  | cons symbol cells ih =>
    obtain ⟨hsymbol, hrest⟩ := List.forall_mem_cons.mp hcells
    obtain ⟨i, rfl⟩ := Int.eq_ofNat_of_zero_le hsymbol
    have hfollowing := h.following i
    have hcount : (done ++ (i : Int) :: cells).count (i : Int) =
        done.count (i : Int) + (cells.count (i : Int) + 1) := by
      rw [List.count_append, List.count_cons_self]
    have htotal := hstart i
    have hle : (done ++ (i : Int) :: cells).count (i : Int) ≤ 2 ^ log :=
      List.count_le_length.trans hlength
    have hstate : s.1.getD i 0 ≠ 0 := by omega
    have hlog : Nat.log 2 (s.1.getD i 0) ≤ log := by
      refine Nat.lt_succ_iff.mp (Nat.log_lt_of_lt_pow hstate ?_)
      rw [pow_succ]
      omega
    have hrow := (@rowOf_eq_ok _ i _ _ hstate).mpr ⟨hlog, rfl⟩
    have hstep : ∃ m, numberCell log s (i : Int) = .ok m := by
      unfold numberCell
      dsimp only
      rw [Int.toNat_natCast, require_pos (not_or.mpr ⟨not_lt.mpr hsymbol, hstate⟩), ok_bind, hrow]
      exact ⟨_, rfl⟩
    obtain ⟨m, hm⟩ := hstep
    obtain ⟨p, hp⟩ := numbered_step h hm
    obtain ⟨s', hs'⟩ := ih hp hrest (by simpa using hstart) (by simpa using hlength)
    exact ⟨s', foldlM_cons_eq_ok.mpr ⟨m, hm, hs'⟩⟩

/-- Behind the last cell the walk has gone around, and all cells are filled. -/
theorem Walked.done {high : Nat} (hcoprime : Nat.Coprime size stride) {s : Spread}
    (h : Walked size stride high 0 s) : s.position = 0 ∧ ∀ c ∈ s.symbols, 0 ≤ c := by
  have hsteps : s.steps = size := by
    by_contra hne
    have hlt : s.steps < size := lt_of_le_of_ne h.steps hne
    have hmem : s.steps ∈ Stride.lowTimes size stride high s.steps :=
      Finset.mem_filter.mpr ⟨Finset.mem_Ico.mpr ⟨le_rfl, hlt⟩, h.position ▸ h.low⟩
    rw [Finset.card_eq_zero.mp h.left] at hmem
    cases hmem
  refine ⟨by rw [h.position, hsteps, Stride.place_size], fun c hc => ?_⟩
  obtain ⟨i, hi, rfl⟩ := List.getElem_of_mem hc
  rw [← List.getD_eq_getElem _ (-1) hi]
  by_cases hhigh : (high : Int) < i
  · exact h.high i hhigh hi
  · rw [h.length] at hi
    obtain ⟨t, ht, rfl⟩ := Stride.exists_place hcoprime hi
    exact h.passed t (by omega) (by omega)

/-- Without low cells there is nothing to spread. -/
theorem spread_nil {entries : List (Int × Nat)} (h : spreadOf entries = []) (s : Spread) :
    entries.foldlM (fun s entry =>
      (List.replicate entry.1.toNat entry.2).foldlM (spreadCell size stride high) s) s = .ok s := by
  induction entries with
  | nil => rfl
  | cons e entries ih =>
    obtain ⟨he, hrest⟩ := List.append_eq_nil_iff.mp (show List.replicate e.1.toNat (e.2 : Int) ++
      spreadOf entries = [] from h)
    have hzero : e.1.toNat = 0 := by simpa using he
    rw [foldlM_cons_eq_ok]
    exact ⟨s, by rw [hzero]; rfl, ih hrest⟩

/-- The stride of a table has no factor in common with its size. -/
theorem coprime_stride {log : Nat} (hlow : 5 ≤ log) (hhigh : log ≤ 9) :
    Nat.Coprime (2 ^ log) (2 ^ log / 2 + 2 ^ log / 8 + 3) := by
  interval_cases log <;> decide

/-- `build_table` returns a table for the well-formed norms, and for no other. -/
theorem buildTable_isOk {norm : List Int} {log : Int} :
    (∃ table, buildTable norm log = .ok table) ↔ WellFormed norm log := by
  constructor
  · rintro ⟨table, hok⟩
    obtain ⟨_, -, hok⟩ := bind_eq_ok.mp hok
    obtain ⟨_, hsum, hok⟩ := bind_eq_ok.mp hok
    obtain ⟨hlow, hhigh, hsum, hsymbols⟩ := require_eq_ok.mp hsum
    obtain ⟨⟨cells, high⟩, hreserve, -⟩ := bind_eq_ok.mp hok
    refine ⟨⟨hlow, hhigh⟩, hsum, hsymbols, fun count hcount => ?_⟩
    rw [← List.zipIdx_map_fst 0 norm] at hcount
    obtain ⟨e, he, rfl⟩ := List.mem_map.mp hcount
    exact (fills_of_reserve hreserve).2 e he
  · intro h
    obtain ⟨n, rfl⟩ := Int.eq_ofNat_of_zero_le (show 0 ≤ log by have := h.bounds; omega)
    obtain ⟨⟨hlow, hhigh⟩, hsum, hsymbols, hnorm⟩ := h
    rw [Int.toNat_natCast] at hsum
    have hentries := low_of_mem_zipIdx hnorm
    have hperm := reservedOf_append_spreadOf hentries
    have hlength : (reservedOf norm.zipIdx).length + (spreadOf norm.zipIdx).length = 2 ^ n := by
      rw [← List.length_append, hperm.length_eq, length_symbolsOf, hsum]
    have hmask : ∀ k, k &&& (2 ^ n - 1) = k % 2 ^ n := fun k => Nat.and_two_pow_sub_one_eq_mod k n
    have hcoprime := @coprime_stride n (by omega) (by omega)
    have hempty : filled (List.replicate (2 ^ n) (-1)) = [] := by
      unfold filled
      exact List.filter_eq_nil_iff.mpr fun c hc => by
        rw [List.eq_of_mem_replicate hc]
        decide
    obtain ⟨cells, hreserve, hfilled⟩ := @reserve_ok _ (List.replicate (2 ^ n) (-1))
      (((2 ^ n : Nat) : Int) - 1) hentries (by omega)
      (by rw [List.length_replicate]; omega) (by
        intro i hi hlt
        rw [List.length_replicate] at hlt
        omega)
    obtain ⟨hfills, -⟩ := fills_of_reserve hreserve
    -- what is left of the cells after the high ones
    have hspread : ∃ s, spread (2 ^ n) (2 ^ n / 2 + 2 ^ n / 8 + 3)
        (((2 ^ n : Nat) : Int) - 1 - (reservedOf norm.zipIdx).length) norm cells = .ok s ∧
          s.position = 0 ∧ ∀ c ∈ s.symbols, 0 ≤ c := by
      have hcells : cells.length = 2 ^ n := by rw [hfills.length, List.length_replicate]
      by_cases hnone : spreadOf norm.zipIdx = []
      · refine ⟨⟨cells, 0, 0⟩, spread_nil hnone _, rfl, fun c hc => ?_⟩
        obtain ⟨i, hi, rfl⟩ := List.getElem_of_mem hc
        rw [← List.getD_eq_getElem _ (-1) hi]
        refine hfilled i ?_ hi
        rw [hnone, List.length_nil] at hlength
        omega
      · obtain ⟨high, hhigh⟩ : ∃ high, (spreadOf norm.zipIdx).length = high + 1 :=
          Nat.exists_eq_succ_of_ne_zero fun hzero => hnone (List.length_eq_zero_iff.mp hzero)
        have hhighInt : ((2 ^ n : Nat) : Int) - 1 - (reservedOf norm.zipIdx).length = high := by
          omega
        rw [hhighInt] at hfilled ⊢
        have hlt : high < 2 ^ n := by omega
        have hwalked : Walked (2 ^ n) (2 ^ n / 2 + 2 ^ n / 8 + 3) high
            ((spreadOf norm.zipIdx).length + 0) ⟨cells, 0, 0⟩ :=
          { steps := Nat.zero_le _
            position := Stride.place_zero.symm
            low := Nat.zero_le _
            left := by rw [Stride.card_lowTimes hcoprime hlt, hhigh]
            length := hcells
            passed := fun t ht => absurd ht (Nat.not_lt_zero t)
            high := hfilled }
        obtain ⟨s, hs, hdone⟩ := spread_ok hmask hlt hwalked
        exact ⟨s, hs, hdone.done hcoprime⟩
    obtain ⟨s, hspread, hposition, hfull⟩ := hspread
    have hall := hfills.trans (fills_of_spread hspread)
    have hsymbolsPerm : s.symbols.Perm (symbolsOf norm.zipIdx) := by
      refine (hall.perm hempty ?_ hfull).trans hperm
      rw [List.length_append, hlength, List.length_replicate]
    obtain ⟨numbered, hnumbered⟩ := @numberCells_ok n _ s.symbols _ _ _
      (numbered_start n (initialStates norm)) hfull (fun i => by
        rw [getD_initialStates hnorm, List.nil_append, hsymbolsPerm.count_eq,
          ← count_symbolsOf norm 0 i, Nat.zero_add])
      (by rw [List.nil_append, hall.length, List.length_replicate])
    refine ⟨⟨n, numbered.2⟩, ?_⟩
    unfold buildTable
    rw [require_pos (by omega), ok_bind, Int.toNat_natCast]
    dsimp only
    rw [require_pos ⟨hlow, hhigh, hsum, hsymbols⟩, ok_bind, hreserve, ok_bind]
    dsimp only
    rw [hspread, ok_bind, require_pos hposition, ok_bind, hnumbered]
    rfl

end Codec

end ZoidbergChain
