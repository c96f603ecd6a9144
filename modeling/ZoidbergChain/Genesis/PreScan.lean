import ZoidbergChain.CanonicalV3.Widths
import ZoidbergChain.Python.JsonText

/-!
# The scan before a genesis is read

isolated_g2717m/verifier.py: `_prescan`, the loop over the bytes of a genesis that bounds its
containers and its string tokens before the JSON reader builds a tree.

- `preScan` is the loop, `Within` the bound on the containers of a value.
- `Runs` is the triple of the loop on a phrase: from which states, to which, and when it passes.
- `preScan_document`: on a JSON text the loop passes if and only if the value and its string
  tokens are within the bounds.
-/

namespace ZoidbergChain

open Python CanonicalV3

namespace Genesis

/-! ## The loop -/

/-- `GENESIS_LIMIT`. -/
def genesisLimit : Nat := 1048576

/-- The most members of an object, the most elements of an array, the longest string token, and
the deepest nesting. -/
def maxMembers : Nat := 17

def maxElements : Nat := 4096

def maxToken : Nat := 16384

def maxStack : Nat := 32

/-- The state of the loop. -/
structure PreScan where
  /-- The open brackets, the innermost first, each with one more than its commas. -/
  stack : List (UInt8 × Nat) := []
  quoted : Bool := false
  escaped : Bool := false
  start : Nat := 0
  offset : Nat := 0

/-- The most commas and one more behind an open bracket. -/
def bracketLimit (bracket : UInt8) : Nat := if bracket = 91 then maxElements else maxMembers

/-- The body of the loop. -/
def PreScan.body (s : PreScan) (b : UInt8) : Py PreScan :=
  if s.quoted then do
    require (s.offset - s.start ≤ maxToken) (v3Error "outer_string_length")
    if s.escaped then .ok { s with escaped := false }
    else if b = 92 then .ok { s with escaped := true }
    else if b = 34 then .ok { s with quoted := false }
    else .ok s
  else if b = 34 then .ok { s with quoted := true, start := s.offset + 1 }
  else if b = 91 ∨ b = 123 then do
    require (s.stack.length + 1 ≤ maxStack) (v3Error "json_depth")
    .ok { s with stack := (b, 1) :: s.stack }
  else match s.stack with
    | [] => .ok s
    | (bracket, count) :: stack =>
      if b = 44 then do
        require (count + 1 ≤ bracketLimit bracket) (v3Error "outer_container_count")
        .ok { s with stack := (bracket, count + 1) :: stack }
      else if b = 93 ∨ b = 125 then .ok { s with stack }
      else .ok s

def PreScan.next (s : PreScan) : PreScan := { s with offset := s.offset + 1 }

/-- One turn of the loop, to the next offset. -/
def PreScan.step (s : PreScan) (b : UInt8) : Py PreScan := do
  let s ← s.body b
  .ok s.next

/-- `_prescan`. -/
def preScan (raw : ByteArray) : Py Unit := do
  require (raw.size ≤ genesisLimit) (v3Error "json_size")
  let _ ← raw.data.toList.foldlM PreScan.step {}
  .ok ()

/-! ## Values within the bounds -/

mutual

/-- No object of the value has too many members, and no array too many elements. -/
def Within : Value → Prop
  | .list xs => xs.length ≤ maxElements ∧ WithinItems xs
  | .dict es => es.length ≤ maxMembers ∧ WithinEntries es
  | _ => True

def WithinItems : List Value → Prop
  | [] => True
  | x :: xs => Within x ∧ WithinItems xs

def WithinEntries : List (String × Value) → Prop
  | [] => True
  | (_, v) :: es => Within v ∧ WithinEntries es

end

/-- The string tokens are short enough. -/
def Short (ts : List (List Char)) : Prop := ∀ t ∈ ts, Json.bytes t ≤ maxToken

theorem short_nil : Short [] := nofun

theorem short_append {ts us : List (List Char)} : Short (ts ++ us) ↔ Short ts ∧ Short us := by
  simp [Short, or_imp, forall_and]

/-! ## Runs of the loop -/

/-- The loop over the bytes of a text. -/
def PreScan.run (s : PreScan) (cs : List Char) : Py PreScan :=
  (cs.flatMap String.utf8EncodeChar).foldlM PreScan.step s

theorem PreScan.run_append {s t : PreScan} {c ds : List Char} :
    s.run (c ++ ds) = .ok t ↔ ∃ u, s.run c = .ok u ∧ u.run ds = .ok t := by
  rw [PreScan.run, List.flatMap_append]
  exact foldlM_append_eq_ok

/-- From a state in `A` the loop passes the texts of a phrase if `q` holds and their string
tokens are short, and only then; it comes out in a state in `B`. -/
def Runs (A : PreScan → Prop) (L : Json.Phrase) (q : Prop) (B : PreScan → Prop) : Prop :=
  ∀ s cs ts, A s → L cs ts →
    ((∃ s', s.run cs = .ok s') ↔ q ∧ Short ts) ∧ ∀ s', s.run cs = .ok s' → B s'

section Rules

variable {A B C : PreScan → Prop} {L M : Json.Phrase} {q q' : Prop}

theorem Runs.congr (h : Runs A L q B) (hq : q ↔ q') : Runs A L q' B := propext hq ▸ h

/-- One phrase behind the other. -/
theorem Runs.seq (hL : Runs A L q B) (hM : q → Runs B M q' C) :
    Runs A (Json.Phrase.seq L M) (q ∧ q') C := by
  rintro s _ _ hs ⟨c, t, c', t', hc, hc', rfl, rfl⟩
  obtain ⟨hpass, hB⟩ := hL s c t hs hc
  refine ⟨?_, fun s' hs' => ?_⟩
  · rw [short_append]
    constructor
    · rintro ⟨s', hs'⟩
      obtain ⟨u, hu, hs'⟩ := PreScan.run_append.mp hs'
      obtain ⟨hq, ht⟩ := hpass.mp ⟨u, hu⟩
      obtain ⟨hq', ht'⟩ := (hM hq u c' t' (hB u hu) hc').1.mp ⟨s', hs'⟩
      exact ⟨⟨hq, hq'⟩, ht, ht'⟩
    · rintro ⟨⟨hq, hq'⟩, ht, ht'⟩
      obtain ⟨u, hu⟩ := hpass.mpr ⟨hq, ht⟩
      obtain ⟨s', hs'⟩ := (hM hq u c' t' (hB u hu) hc').1.mpr ⟨hq', ht'⟩
      exact ⟨s', PreScan.run_append.mpr ⟨u, hu, hs'⟩⟩
  · obtain ⟨u, hu, hs'⟩ := PreScan.run_append.mp hs'
    exact (hM (hpass.mp ⟨u, hu⟩).1 u c' t' (hB u hu) hc').2 s' hs'

/-- A text that is passed byte for byte. -/
theorem Runs.same (h : ∀ cs ts, L cs ts → ts = [] ∧ ∀ c ∈ cs, ∀ b ∈ String.utf8EncodeChar c,
    ∀ s, A s → ∃ s', s.step b = .ok s' ∧ A s') : Runs A L True A := by
  intro s cs ts hs hcs
  obtain ⟨rfl, hstep⟩ := h cs ts hcs
  have hbytes : ∀ b ∈ cs.flatMap String.utf8EncodeChar, ∀ s, A s →
      ∃ s', s.step b = .ok s' ∧ A s' := by
    intro b hb
    obtain ⟨c, hc, hb⟩ := List.mem_flatMap.mp hb
    exact hstep c hc b hb
  have hrun : ∃ s', s.run cs = .ok s' ∧ A s' := by
    rw [PreScan.run]
    revert hbytes
    generalize cs.flatMap String.utf8EncodeChar = bytes
    intro hbytes
    induction bytes generalizing s with
    | nil => exact ⟨s, rfl, hs⟩
    | cons b bytes ih =>
      obtain ⟨u, hu, hA⟩ := hbytes b (by simp) s hs
      obtain ⟨s', hs', hA'⟩ := ih u hA fun b hb => hbytes b (List.mem_cons_of_mem _ hb)
      exact ⟨s', by rw [List.foldlM_cons, hu, ok_bind, hs'], hA'⟩
  obtain ⟨s', hs', hA'⟩ := hrun
  refine ⟨⟨fun _ => ⟨trivial, short_nil⟩, fun _ => ⟨s', hs'⟩⟩, fun u hu => ?_⟩
  rw [hs'] at hu
  exact Except.ok.inj hu ▸ hA'

/-- A text of one byte. -/
theorem Runs.byte {c : Char} {b : UInt8} (hb : String.utf8EncodeChar c = [b])
    (hpass : ∀ s, A s → ((∃ s', s.step b = .ok s') ↔ q))
    (hB : ∀ s s', A s → s.step b = .ok s' → B s') : Runs A (Json.Phrase.chars [c]) q B := by
  rintro s _ _ hs ⟨rfl, rfl⟩
  have hrun : s.run [c] = s.step b := by
    rw [PreScan.run, List.flatMap_singleton, hb, List.foldlM_cons]
    cases s.step b <;> rfl
  rw [hrun]
  exact ⟨(hpass s hs).trans ⟨fun hq => ⟨hq, short_nil⟩, And.left⟩, fun s' => hB s s' hs⟩

/-- Some characters, and others behind them. -/
theorem Runs.chars_append {c ds : List Char} (hc : Runs A (Json.Phrase.chars c) q B)
    (hds : q → Runs B (Json.Phrase.chars ds) q' C) :
    Runs A (Json.Phrase.chars (c ++ ds)) (q ∧ q') C := by
  rintro s _ _ hs ⟨rfl, rfl⟩
  exact hc.seq hds s _ _ hs ⟨c, [], ds, [], ⟨rfl, rfl⟩, ⟨rfl, rfl⟩, rfl, rfl⟩

end Rules

/-! ## Between the tokens -/

variable {stack : List (UInt8 × Nat)} {n : Nat}

/-- The state between two tokens. -/
def Between (stack : List (UInt8 × Nat)) (s : PreScan) : Prop :=
  s.stack = stack ∧ s.quoted = false ∧ s.escaped = false

theorem between_next {s : PreScan} (hs : Between stack s) : Between stack s.next := hs

/-- The bytes that the loop takes note of between two tokens. -/
def isMark (b : UInt8) : Bool :=
  b == 34 || b == 91 || b == 123 || b == 44 || b == 93 || b == 125

theorem body_plain {s : PreScan} {b : UInt8} (hs : Between stack s) (hb : isMark b = false) :
    s.body b = .ok s := by
  obtain ⟨-, hquoted, -⟩ := hs
  simp only [isMark, Bool.or_eq_false_iff, beq_eq_false_iff_ne] at hb
  obtain ⟨⟨⟨⟨⟨hquote, hopen⟩, hbrace⟩, hcomma⟩, hclose⟩, hunbrace⟩ := hb
  rw [PreScan.body, hquoted, if_neg Bool.false_ne_true, if_neg hquote,
    if_neg (not_or.mpr ⟨hopen, hbrace⟩)]
  split
  · rfl
  · rw [if_neg hcomma, if_neg (not_or.mpr ⟨hclose, hunbrace⟩)]

/-- A character that is none of the marks. -/
def isPlain (c : Char) : Bool :=
  c != '"' && c != '[' && c != '\x7b' && c != ',' && c != ']' && c != '\x7d'

/-- A byte of a character is no other ASCII character. -/
theorem ne_of_mem_utf8 {c d : Char} {b : UInt8} (hb : b ∈ String.utf8EncodeChar c)
    (hd : d.toNat < 128) (hcd : c ≠ d) : b ≠ UInt8.ofNat d.toNat := by
  refine ne_of_toNat_ne (by omega) ?_
  have hnat : c.toNat ≠ d.toNat := fun heq => hcd (Char.toNat_inj.mp heq)
  obtain hb | hb := mem_utf8EncodeChar hb <;> omega

theorem isMark_of_plain {c : Char} (hc : isPlain c = true) {b : UInt8}
    (hb : b ∈ String.utf8EncodeChar c) : isMark b = false := by
  have hne : ∀ d : Char, d.toNat < 128 → c ≠ d → b ≠ UInt8.ofNat d.toNat :=
    fun d => ne_of_mem_utf8 hb
  simp only [isPlain, Bool.and_eq_true, bne_iff_ne] at hc
  obtain ⟨⟨⟨⟨⟨hquote, hopen⟩, hbrace⟩, hcomma⟩, hclose⟩, hunbrace⟩ := hc
  simp only [isMark, Bool.or_eq_false_iff, beq_eq_false_iff_ne]
  exact ⟨⟨⟨⟨⟨hne _ (by decide) hquote, hne _ (by decide) hopen⟩, hne _ (by decide) hbrace⟩,
    hne _ (by decide) hcomma⟩, hne _ (by decide) hclose⟩, hne _ (by decide) hunbrace⟩

theorem runs_plain {L : Json.Phrase}
    (h : ∀ cs ts, L cs ts → ts = [] ∧ cs.all isPlain = true) :
    Runs (Between stack) L True (Between stack) := by
  refine Runs.same fun cs ts hcs => ?_
  obtain ⟨hts, hplain⟩ := h cs ts hcs
  refine ⟨hts, fun c hc b hb s hs => ⟨_, ?_, between_next hs⟩⟩
  have hmark := isMark_of_plain (List.all_eq_true.mp hplain c hc) hb
  rw [PreScan.step, body_plain hs hmark]
  rfl

theorem runs_spaces : Runs (Between stack) Json.Phrase.spaces True (Between stack) := by
  refine runs_plain fun cs ts hcs => ⟨hcs.2, List.all_eq_true.mpr fun c hc => ?_⟩
  have hspace := List.all_eq_true.mp hcs.1 c hc
  simp only [Json.isSpace, Bool.or_eq_true, beq_iff_eq] at hspace
  obtain ((rfl | rfl) | rfl) | rfl := hspace <;> rfl

theorem runs_word : Runs (Between stack) Json.Phrase.word True (Between stack) := by
  refine runs_plain fun cs ts hcs => ⟨hcs.2.2, List.all_eq_true.mpr fun c hc => ?_⟩
  have hword := List.all_eq_true.mp hcs.2.1 c hc
  simp only [isPlain, Bool.and_eq_true, bne_iff_ne]
  refine ⟨⟨⟨⟨⟨?_, ?_⟩, ?_⟩, ?_⟩, ?_⟩, ?_⟩ <;> (rintro rfl; exact absurd hword (by decide))

theorem runs_colon :
    Runs (Between stack) (Json.Phrase.chars [':']) True (Between stack) :=
  runs_plain fun _ _ hcs => ⟨hcs.2, hcs.1 ▸ rfl⟩

/-- One byte, by what the loop requires of it and the state that it makes. -/
theorem Runs.of_body {A B : PreScan → Prop} {q : Prop} [Decidable q] {c : Char} {b : UInt8}
    (hb : String.utf8EncodeChar c = [b])
    (h : ∀ s, A s → ∃ e u, s.body b = (do require q e; .ok u) ∧ B u.next) : Runs A (Json.Phrase.chars [c]) q B := by
  have hstep : ∀ {s}, A s → ∃ e u, s.step b = (do require q e; .ok u) ∧ B u := by
    intro s hs
    obtain ⟨e, u, hu, hB⟩ := h s hs
    refine ⟨e, u.next, ?_, hB⟩
    rw [PreScan.step, hu]
    by_cases hq : q
    · rw [require_pos hq]
      rfl
    · rw [require_neg hq]
      rfl
  refine Runs.byte hb (fun s hs => ?_) fun s s' hs hs' => ?_
  · obtain ⟨e, u, hu, -⟩ := hstep hs
    rw [hu]
    by_cases hq : q
    · rw [require_pos hq]
      exact ⟨fun _ => hq, fun _ => ⟨_, rfl⟩⟩
    · rw [require_neg hq]
      exact ⟨nofun, fun h => absurd h hq⟩
  · obtain ⟨e, u, hu, hB⟩ := hstep hs
    rw [hu] at hs'
    obtain ⟨_, -, hs'⟩ := bind_eq_ok.mp hs'
    exact Except.ok.inj hs' ▸ hB

/-- An opening bracket. -/
theorem runs_open {c : Char} {b : UInt8} (hb : String.utf8EncodeChar c = [b])
    (hbracket : b = 91 ∨ b = 123) : Runs (Between stack) (Json.Phrase.chars [c])
      (stack.length + 1 ≤ maxStack) (Between ((b, 1) :: stack)) := by
  refine Runs.of_body hb fun s hs => ?_
  obtain ⟨rfl, hquoted, hescaped⟩ := hs
  have hquote : b ≠ 34 := by
    rintro rfl
    revert hbracket
    decide
  refine ⟨v3Error "json_depth", { s with stack := (b, 1) :: s.stack }, ?_, rfl, hquoted, hescaped⟩
  rw [PreScan.body, hquoted, if_neg Bool.false_ne_true, if_neg hquote, if_pos hbracket]

/-- A closing bracket, whichever it is. -/
theorem runs_close {c : Char} {b bracket : UInt8} (hb : String.utf8EncodeChar c = [b])
    (hbracket : b = 93 ∨ b = 125) : Runs (Between ((bracket, n) :: stack))
      (Json.Phrase.chars [c]) True (Between stack) := by
  refine Runs.of_body hb fun s hs => ?_
  obtain ⟨hstack, hquoted, hescaped⟩ := hs
  have hnot : b ≠ 34 ∧ ¬(b = 91 ∨ b = 123) ∧ b ≠ 44 := by
    obtain rfl | rfl := hbracket <;> decide
  refine ⟨v3Error "", { s with stack }, ?_, rfl, hquoted, hescaped⟩
  rw [PreScan.body, hquoted, if_neg Bool.false_ne_true, if_neg hnot.1, if_neg hnot.2.1, hstack,
    require_pos trivial]
  dsimp only
  rw [if_neg hnot.2.2, if_pos hbracket]
  rfl

/-- A comma counts for the innermost bracket. -/
theorem runs_comma {bracket : UInt8} : Runs (Between ((bracket, n) :: stack))
    (Json.Phrase.chars [',']) (n + 1 ≤ bracketLimit bracket)
    (Between ((bracket, n + 1) :: stack)) := by
  refine Runs.of_body (b := 44) rfl fun s hs => ?_
  obtain ⟨hstack, hquoted, hescaped⟩ := hs
  refine ⟨v3Error "outer_container_count", { s with stack := (bracket, n + 1) :: stack }, ?_, rfl,
    hquoted, hescaped⟩
  rw [PreScan.body, hquoted, if_neg Bool.false_ne_true, if_neg (by decide), if_neg (by decide),
    hstack]
  dsimp only
  rw [if_pos rfl]

/-! ## Inside a string literal -/

/-- The state behind so many bytes of a token. -/
def Inside (stack : List (UInt8 × Nat)) (n : Nat) (s : PreScan) : Prop :=
  s.stack = stack ∧ s.quoted = true ∧ s.escaped = false ∧ s.offset = s.start + n

/-- The same, behind a backslash. -/
def Escaping (stack : List (UInt8 × Nat)) (n : Nat) (s : PreScan) : Prop :=
  s.stack = stack ∧ s.quoted = true ∧ s.escaped = true ∧ s.offset = s.start + n

theorem runs_quote : Runs (Between stack) (Json.Phrase.chars ['"']) True (Inside stack 0) := by
  refine Runs.of_body (b := 34) rfl fun s hs => ?_
  obtain ⟨hstack, hquoted, hescaped⟩ := hs
  refine ⟨v3Error "", { s with quoted := true, start := s.offset + 1 }, ?_, hstack, rfl, hescaped,
    rfl⟩
  rw [PreScan.body, hquoted, if_neg Bool.false_ne_true, if_pos rfl, require_pos trivial]
  rfl

/-- The loop at a position inside of a token. -/
theorem body_inside {s : PreScan} {b : UInt8} (hquoted : s.quoted = true)
    (hoffset : s.offset = s.start + n) (u : PreScan)
    (hu : (if s.escaped then .ok { s with escaped := false }
      else if b = 92 then .ok { s with escaped := true }
      else if b = 34 then .ok { s with quoted := false }
      else .ok s : Py PreScan) = .ok u) :
    s.body b = (do require (n ≤ maxToken) (v3Error "outer_string_length"); .ok u) := by
  have hdiff : s.offset - s.start = n := by omega
  rw [PreScan.body, if_pos hquoted, hdiff, hu]

theorem runs_unquote :
    Runs (Inside stack n) (Json.Phrase.chars ['"']) (n ≤ maxToken) (Between stack) := by
  refine Runs.of_body (b := 34) rfl fun s hs => ?_
  obtain ⟨hstack, hquoted, hescaped, hoffset⟩ := hs
  refine ⟨_, _, body_inside hquoted hoffset { s with quoted := false } ?_, hstack, rfl, hescaped⟩
  rw [hescaped]
  rfl

theorem runs_backslash : Runs (Inside stack n) (Json.Phrase.chars ['\\']) (n ≤ maxToken)
    (Escaping stack (n + 1)) := by
  refine Runs.of_body (b := 92) rfl fun s hs => ?_
  obtain ⟨hstack, hquoted, hescaped, hoffset⟩ := hs
  refine ⟨_, _, body_inside hquoted hoffset { s with escaped := true } ?_, hstack, hquoted, rfl,
    by dsimp only [PreScan.next]; omega⟩
  rw [hescaped]
  rfl

theorem runs_escaped {c : Char} {b : UInt8} (hb : String.utf8EncodeChar c = [b]) :
    Runs (Escaping stack n) (Json.Phrase.chars [c]) (n ≤ maxToken) (Inside stack (n + 1)) := by
  refine Runs.of_body hb fun s hs => ?_
  obtain ⟨hstack, hquoted, hescaped, hoffset⟩ := hs
  refine ⟨_, _, body_inside hquoted hoffset { s with escaped := false } ?_, hstack, hquoted, rfl,
    by dsimp only [PreScan.next]; omega⟩
  rw [hescaped]
  rfl

theorem step_inside {s : PreScan} {b : UInt8} (hs : Inside stack n s) (hback : b ≠ 92)
    (hquote : b ≠ 34) :
    s.step b = (do require (n ≤ maxToken) (v3Error "outer_string_length"); .ok s.next) := by
  obtain ⟨-, hquoted, hescaped, hoffset⟩ := hs
  rw [PreScan.step, body_inside hquoted hoffset s (by simp [hescaped, hback, hquote])]
  by_cases hn : n ≤ maxToken
  · rw [require_pos hn]
    rfl
  · rw [require_neg hn]
    rfl

theorem inside_next {s : PreScan} (hs : Inside stack n s) : Inside stack (n + 1) s.next := by
  obtain ⟨hstack, hquoted, hescaped, hoffset⟩ := hs
  exact ⟨hstack, hquoted, hescaped, by dsimp only [PreScan.next]; omega⟩

/-- A character of a token that is neither a quote nor a backslash. -/
theorem runs_char {c : Char} (hquote : c ≠ '"') (hback : c ≠ '\\') :
    Runs (Inside stack n) (Json.Phrase.chars [c]) (n + c.utf8Size ≤ maxToken + 1)
      (Inside stack (n + c.utf8Size)) := by
  -- over the bytes of the character, of which there is one at least
  have hrun : ∀ (bytes : List UInt8) (n : Nat) (s : PreScan), Inside stack n s →
      (∀ b ∈ bytes, b ≠ 92 ∧ b ≠ 34) →
      ((∃ s', bytes.foldlM PreScan.step s = .ok s') ↔
        bytes = [] ∨ n + bytes.length ≤ maxToken + 1) ∧
      ∀ s', bytes.foldlM PreScan.step s = .ok s' → Inside stack (n + bytes.length) s' := by
    intro bytes
    induction bytes with
    | nil => exact fun n s hs _ => ⟨⟨fun _ => .inl rfl, fun _ => ⟨s, rfl⟩⟩, by rintro _ ⟨⟩; exact hs⟩
    | cons b bytes ih =>
      intro n s hs hbytes
      obtain ⟨⟨hb, hb'⟩, hbytes⟩ := List.forall_mem_cons.mp hbytes
      obtain ⟨hpass, hinside⟩ := ih (n + 1) s.next (inside_next hs) hbytes
      rw [List.foldlM_cons, step_inside hs hb hb', List.length_cons]
      by_cases hn : n ≤ maxToken
      · rw [require_pos hn, ok_bind, ok_bind, hpass]
        refine ⟨?_, fun s' hs' => ?_⟩
        · cases bytes with
          | nil => simpa using hn
          | cons b bytes =>
            simp only [List.length_cons, reduceCtorEq, false_or]
            omega
        · have hnext := hinside s' hs'
          rwa [Nat.add_assoc, Nat.add_comm 1] at hnext
      · rw [require_neg hn]
        refine ⟨⟨nofun, fun h => ?_⟩, nofun⟩
        simp only [reduceCtorEq, false_or] at h
        omega
  rintro s _ _ hs ⟨rfl, rfl⟩
  have hbytes : ∀ b ∈ String.utf8EncodeChar c, b ≠ 92 ∧ b ≠ 34 := fun b hb =>
    ⟨ne_of_mem_utf8 (d := '\\') hb (by decide) hback,
      ne_of_mem_utf8 (d := '"') hb (by decide) hquote⟩
  obtain ⟨hpass, hinside⟩ := hrun _ n s hs hbytes
  have hne : String.utf8EncodeChar c ≠ [] := String.utf8EncodeChar_ne_nil
  rw [String.length_utf8EncodeChar] at hpass hinside
  rw [PreScan.run, List.flatMap_singleton]
  refine ⟨hpass.trans ?_, hinside⟩
  rw [or_iff_right hne]
  exact ⟨fun h => ⟨h, short_nil⟩, And.left⟩

theorem isHexDigit_ne {c : Char} (hc : Json.isHexDigit c = true) : c ≠ '"' ∧ c ≠ '\\' := by
  constructor <;> (rintro rfl; exact absurd hc (by decide))

/-- Characters of a token, and the rest of it. -/
theorem runs_char_append {c : Char} (hquote : c ≠ '"') (hback : c ≠ '\\') {ds : List Char}
    (h : ∀ n, Runs (Inside stack n) (Json.Phrase.chars (ds ++ ['"']))
      (n + Json.bytes ds ≤ maxToken) (Between stack)) (n : Nat) :
    Runs (Inside stack n) (Json.Phrase.chars (c :: ds ++ ['"']))
      (n + Json.bytes (c :: ds) ≤ maxToken) (Between stack) := by
  refine ((runs_char hquote hback).chars_append (c := [c]) fun _ => h _).congr ?_
  rw [Json.bytes_cons]
  omega

/-- A backslash with the character behind it, and the rest of the token. -/
theorem runs_escape_append {c : Char} {b : UInt8} (hb : String.utf8EncodeChar c = [b])
    {ds : List Char} (h : ∀ n, Runs (Inside stack n) (Json.Phrase.chars (ds ++ ['"']))
      (n + Json.bytes ds ≤ maxToken) (Between stack)) (n : Nat) :
    Runs (Inside stack n) (Json.Phrase.chars ('\\' :: c :: ds ++ ['"']))
      (n + Json.bytes ('\\' :: c :: ds) ≤ maxToken) (Between stack) := by
  have hsize : c.utf8Size = 1 := by
    rw [← String.length_utf8EncodeChar, hb]
    rfl
  have hslash : '\\'.utf8Size = 1 := rfl
  refine (runs_backslash.chars_append (c := ['\\']) fun _ =>
    (runs_escaped hb).chars_append (c := [c]) fun _ => h _).congr ?_
  rw [Json.bytes_cons, Json.bytes_cons, hsize, hslash]
  omega

theorem runs_unit_append {a b c d : Char} {u : Nat} (hu : Json.hexUnit a b c d = some u)
    {ds : List Char} (h : ∀ n, Runs (Inside stack n) (Json.Phrase.chars (ds ++ ['"']))
      (n + Json.bytes ds ≤ maxToken) (Between stack)) (n : Nat) :
    Runs (Inside stack n) (Json.Phrase.chars ('\\' :: 'u' :: a :: b :: c :: d :: ds ++ ['"']))
      (n + Json.bytes ('\\' :: 'u' :: a :: b :: c :: d :: ds) ≤ maxToken) (Between stack) := by
  have hdigits : ∀ x ∈ [a, b, c, d], Json.isHexDigit x = true := by
    unfold Json.hexUnit at hu
    split at hu
    · next hall => exact List.all_eq_true.mp hall
    · cases hu
  have hne : ∀ x ∈ [a, b, c, d], x ≠ '"' ∧ x ≠ '\\' := fun x hx => isHexDigit_ne (hdigits x hx)
  simp only [List.forall_mem_cons] at hne
  obtain ⟨ha, hb, hc, hd, -⟩ := hne
  exact runs_escape_append rfl (runs_char_append ha.1 ha.2 (runs_char_append hb.1 hb.2
    (runs_char_append hc.1 hc.2 (runs_char_append hd.1 hd.2 h)))) n

/-- The rest of a string literal behind its opening quote. -/
theorem runs_literal {s t : List Char} (ht : Json.Literal s t) (n : Nat) :
    Runs (Inside stack n) (Json.Phrase.chars (t ++ ['"'])) (n + Json.bytes t ≤ maxToken)
      (Between stack) := by
  induction ht generalizing n with
  | nil => exact runs_unquote
  | char hquote hback _ _ ih => exact runs_char_append hquote hback ih n
  | @letter e c s t hletter _ ih =>
    have hbyte : ∃ b, String.utf8EncodeChar e = [b] := by
      unfold Json.escapeLetter at hletter
      split at hletter
      all_goals first
        | exact ⟨_, rfl⟩
        | cases hletter
    obtain ⟨b, hb⟩ := hbyte
    exact runs_escape_append hb ih n
  | unit hu _ ih => exact runs_unit_append hu ih n
  | pair hu hm _ ih => exact runs_unit_append hu (runs_unit_append hm ih) n

theorem runs_string (s : String) :
    Runs (Between stack) (Json.Phrase.string s) True (Between stack) := by
  rintro σ _ _ hσ ⟨t, ht, rfl, rfl⟩
  have hrun := runs_quote.chars_append (c := ['"']) fun _ => @runs_literal stack _ _ ht 0
  obtain ⟨hpass, hbetween⟩ := hrun σ _ [] hσ ⟨rfl, rfl⟩
  refine ⟨hpass.trans ?_, hbetween⟩
  simp [Short]

/-! ## Values -/

theorem runs_entry (k : String) {L : Json.Phrase} {q : Prop}
    (h : Runs (Between stack) L q (Between stack)) :
    Runs (Between stack) (Json.Phrase.entry k L) q (Between stack) := by
  have hvalue := runs_spaces.seq fun _ => h
  have hcolon := runs_colon.seq fun _ => hvalue
  have hspaces := runs_spaces.seq fun _ => hcolon
  exact ((runs_string k).seq fun _ => hspaces).congr (by simp)

/-- The bounds of a container by those of its first child and of the rest. -/
theorem bounds_first {P Q : Prop} {depth a b k limit : Nat} :
    (depth + 1 ≤ maxStack ∧ True ∧ (P ∧ (a = 0 ∨ depth + 1 + a ≤ maxStack)) ∧
      1 + k ≤ limit ∧ Q ∧ depth + 1 + b ≤ maxStack) ↔
    (k + 1 ≤ limit ∧ P ∧ Q) ∧ (max a b + 1 = 0 ∨ depth + (max a b + 1) ≤ maxStack) := by
  by_cases hP : P <;> by_cases hQ : Q <;> simp only [hP, hQ, and_true, true_and,
    false_and, and_false]
  omega

theorem bounds_next {P Q : Prop} {depth a b n k limit : Nat} :
    (True ∧ n + 1 ≤ limit ∧ True ∧ (P ∧ (a = 0 ∨ depth + 1 + a ≤ maxStack)) ∧
      n + 1 + k ≤ limit ∧ Q ∧ depth + 1 + b ≤ maxStack) ↔
    n + (k + 1) ≤ limit ∧ (P ∧ Q) ∧ depth + 1 + max a b ≤ maxStack := by
  by_cases hP : P <;> by_cases hQ : Q <;> simp only [hP, hQ, and_true, true_and,
    false_and, and_false]
  omega

mutual

/-- The loop comes out of the text of a value as it came in, if the value is within the bounds
and there is room for its nesting. -/
theorem runs_value : ∀ (v : Value) (stack : List (UInt8 × Nat)),
    Runs (Between stack) (Json.Spells v)
      (Within v ∧ (nesting v = 0 ∨ stack.length + nesting v ≤ maxStack)) (Between stack)
  | .null, _ | .bool _, _ | .int _, _ | .float _, _ => by
    rw [Json.Spells]
    exact runs_word.congr (by simp [Within, nesting])
  | .bytes _, _ => by
    rw [Json.Spells]
    exact fun _ _ _ _ h => h.elim
  | .str s, _ => by
    rw [Json.Spells]
    exact (runs_string s).congr (by simp [Within, nesting])
  | .list [], stack => by
    rw [Json.Spells]
    have hclose := runs_spaces.seq fun _ =>
      @runs_close stack 1 ']' 93 91 rfl (Or.inl rfl)
    refine ((runs_open (c := '[') rfl (Or.inl rfl)).seq fun _ => hclose).congr ?_
    simp [Within, WithinItems, nesting, nestingItems]
  | .list (x :: xs), stack => by
    rw [Json.Spells]
    have hfirst : stack.length + 1 ≤ maxStack → _ := fun h =>
      (runs_value x ((91, 1) :: stack)).seq fun _ => runs_items xs 1 stack (by decide) h
    refine ((runs_open (c := '[') rfl (Or.inl rfl)).seq fun h =>
      runs_spaces.seq fun _ => hfirst h).congr ?_
    exact bounds_first
  | .dict [], stack => by
    rw [Json.Spells]
    have hclose := runs_spaces.seq fun _ =>
      @runs_close stack 1 '\x7d' 125 123 rfl (Or.inr rfl)
    refine ((runs_open (c := '\x7b') rfl (Or.inr rfl)).seq fun _ => hclose).congr ?_
    simp [Within, WithinEntries, nesting, nestingEntries]
  | .dict ((k, v) :: es), stack => by
    rw [Json.Spells]
    have hfirst : stack.length + 1 ≤ maxStack → _ := fun h =>
      (runs_entry k (runs_value v ((123, 1) :: stack))).seq fun _ =>
        runs_entries es 1 stack (by decide) h
    refine ((runs_open (c := '\x7b') rfl (Or.inr rfl)).seq fun h =>
      runs_spaces.seq fun _ => hfirst h).congr ?_
    exact bounds_first

/-- The items behind the first ones, and the closing bracket. -/
theorem runs_items : ∀ (xs : List Value) (n : Nat) (stack : List (UInt8 × Nat)),
    n ≤ maxElements → stack.length + 1 ≤ maxStack →
    Runs (Between ((91, n) :: stack)) (Json.SpellsItems xs)
      (n + xs.length ≤ maxElements ∧ WithinItems xs ∧
        stack.length + 1 + nestingItems xs ≤ maxStack) (Between stack)
  | [], n, stack, hn, hstack => by
    rw [Json.SpellsItems]
    refine (runs_spaces.seq fun _ => runs_close rfl (Or.inl rfl)).congr ?_
    simp only [List.length_nil, WithinItems, nestingItems, true_and, true_iff]
    omega
  | x :: xs, n, stack, hn, hstack => by
    rw [Json.SpellsItems]
    have hitem : n + 1 ≤ maxElements → _ := fun h =>
      (runs_value x ((91, n + 1) :: stack)).seq fun _ => runs_items xs (n + 1) stack h hstack
    refine (runs_spaces.seq fun _ => runs_comma.seq fun h => runs_spaces.seq fun _ =>
      hitem h).congr ?_
    exact bounds_next

/-- The entries behind the first ones, and the closing brace. -/
theorem runs_entries : ∀ (es : List (String × Value)) (n : Nat) (stack : List (UInt8 × Nat)),
    n ≤ maxMembers → stack.length + 1 ≤ maxStack →
    Runs (Between ((123, n) :: stack)) (Json.SpellsEntries es)
      (n + es.length ≤ maxMembers ∧ WithinEntries es ∧
        stack.length + 1 + nestingEntries es ≤ maxStack) (Between stack)
  | [], n, stack, hn, hstack => by
    rw [Json.SpellsEntries]
    refine (runs_spaces.seq fun _ => runs_close rfl (Or.inr rfl)).congr ?_
    simp only [List.length_nil, WithinEntries, nestingEntries, true_and, true_iff]
    omega
  | (k, v) :: es, n, stack, hn, hstack => by
    rw [Json.SpellsEntries]
    have hentry : n + 1 ≤ maxMembers → _ := fun h =>
      (runs_entry k (runs_value v ((123, n + 1) :: stack))).seq fun _ =>
        runs_entries es (n + 1) stack h hstack
    refine (runs_spaces.seq fun _ => runs_comma.seq fun h => runs_spaces.seq fun _ =>
      hentry h).congr ?_
    exact bounds_next

end

/-! ## Documents -/

theorem runs_document (v : Value) :
    Runs (Between []) (Json.Document v) (Within v ∧ nesting v ≤ maxStack) (Between []) := by
  have hvalue := (runs_value v []).seq fun _ => runs_spaces
  refine (runs_spaces.seq fun _ => hvalue).congr ?_
  simp only [true_and, and_true, List.length_nil, Nat.zero_add]
  exact and_congr_right fun _ => ⟨fun h => h.elim (fun hz => hz ▸ Nat.zero_le _) id, .inr⟩

/-- On a JSON text the loop passes if and only if the text is short enough, its string tokens
are, and the value that it spells is within the bounds. -/
theorem preScan_document {raw : ByteArray} {text : String} {v : Value} {ts : List (List Char)}
    (htext : String.fromUTF8? raw = some text) (hv : Json.Document v text.toList ts) :
    preScan raw = .ok () ↔
      raw.size ≤ genesisLimit ∧ (Within v ∧ nesting v ≤ maxStack) ∧ Short ts := by
  have hraw : raw = encodeUtf8 text := by
    unfold String.fromUTF8? at htext
    split at htext
    · cases htext
      rfl
    · cases htext
  have hbytes : raw.data.toList = text.toList.flatMap String.utf8EncodeChar := by
    rw [hraw]
    conv_lhs => rw [← String.ofList_toList (s := text)]
    exact bytes_ofList _
  obtain ⟨hpass, -⟩ := runs_document v {} text.toList ts ⟨rfl, rfl, rfl⟩ hv
  rw [← hpass, preScan, hbytes]
  constructor
  · intro h
    obtain ⟨⟨⟩, hsize, h⟩ := bind_eq_ok.mp h
    obtain ⟨s, hs, -⟩ := bind_eq_ok.mp h
    exact ⟨require_eq_ok.mp hsize, s, hs⟩
  · rintro ⟨hsize, s, hs⟩
    rw [require_pos hsize, ok_bind]
    exact bind_eq_ok.mpr ⟨s, hs, rfl⟩

end Genesis

end ZoidbergChain
