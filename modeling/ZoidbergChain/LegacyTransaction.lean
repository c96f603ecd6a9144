import ZoidbergChain.Block
import ZoidbergChain.Host
import ZoidbergChain.Python.FloatText
import ZoidbergChain.Python.Json

/-!
# The signature of an ordinary transaction (transaction.py:45–98)

`transactionData` joins the sender, the recipient, the amount and the tip without a separator, and
`isValid` verifies the signature of this text only.

- `transactionData_inj`: two transactions of one text agree in all four fields when no border
  between two fields is shifted.
- `sealed_iff`: a signature stands for one recipient, amount and tip exactly when the text behind
  the sender can be cut in one place only.
- `one_digit_of_oneCut`: this takes an amount of a single digit.
-/

namespace ZoidbergChain.LegacyTransaction

open Python

/-! ## The model -/

/-- The curve library: a public key from the hexadecimal text of a point, and the verification of
a signature, given by its two numbers, on the bytes of a message. -/
structure Curve (κ : Type) where
  publicKey : Value → Option κ
  verify : κ → Nat × Nat → ByteArray → Bool

/-- `SECP256K1_ORDER`. -/
def secp256k1Order : Nat := 0xFFFFFFFFFFFFFFFFFFFFFFFFFFFFFFFEBAAEDCE6AF48A03BBFD25E8CD0364141

/-- `int.from_bytes(raw, "big")`. -/
def fromBytes (raw : List UInt8) : Nat := raw.foldl (fun n b => 256 * n + b.toNat) 0

/-- `_legacy_der_signature_from_raw`: the two numbers, or nothing where it raises. -/
def legacySignatureFromRaw (raw : List UInt8) : Option (Nat × Nat) :=
  let r := fromBytes (raw.take 32)
  let s := fromBytes (raw.drop 32)
  if raw.length = 64 ∧ 0 < r ∧ r < secp256k1Order ∧ 0 < s ∧ s < secp256k1Order then some (r, s)
  else none

/-- `self.sender == "GENESIS" or self.sender == "REWARD_POOL"`. -/
def isSystem (tx : Transaction) : Bool :=
  Value.pyEq tx.sender (.str "GENESIS") || Value.pyEq tx.sender (.str "REWARD_POOL")

/-- `f"{self.sender}{self.recipient}{self.amount}{self.tip}"`. -/
def transactionData (rt : Runtime) (tx : Transaction) : String :=
  tx.sender.text rt ++ tx.recipient.text rt ++ tx.amount.text rt ++ tx.tip.text rt

section Model

variable {κ : Type} (rt : Runtime) (c : Curve κ) (b64decode : Value → Option (List UInt8))

/-- `sign_transaction`; `sign` is the private key's signature as the text that is stored. -/
def signTransaction (sign : Value → ByteArray → Py String) (tx : Transaction)
    (privateKey : Value) : Py Transaction :=
  if isSystem tx then .ok tx
  else if privateKey.truthy = false then
    .error { exc := .runtimeError, message := "No private key provided for signing!" }
  else
    match sign privateKey (encodeUtf8 (transactionData rt tx)) with
    | .ok signature => .ok { tx with signature := .str signature }
    | .error e =>
      .error { exc := .runtimeError, message := "Failed to sign transaction: " ++ e.message }

/-- `is_valid`: whatever is raised makes the transaction invalid. -/
def isValid (tx : Transaction) : Bool :=
  isSystem tx ||
  (tx.signature.truthy &&
    match c.publicKey tx.sender, (b64decode tx.signature).bind legacySignatureFromRaw with
    | some key, some signature => c.verify key signature (encodeUtf8 (transactionData rt tx))
    | _, _ => false)

end Model

/-! ## Numbers and their texts -/

/-- An amount or a tip: an integer or a finite float. -/
inductive IsNumber : Value → Prop where
  | int (n : Int) : IsNumber (.int n)
  | float (x : Binary64) : IsNumber (.float (.finite x))

/-- An ordinary transaction: texts for the parties, no system sender, numbers for the rest. -/
structure Ordinary (tx : Transaction) : Prop where
  sender : ∃ s, tx.sender = .str s
  recipient : ∃ s, tx.recipient = .str s
  amount : IsNumber tx.amount
  tip : IsNumber tx.tip
  signed : isSystem tx = false

theorem toList_toString (n : Int) : (toString n).toList = Json.renderInt n := by
  have hnat : ∀ m : Nat, (toString m).toList = Nat.toDigits 10 m := by
    intro m
    rw [Nat.toString_eq_ofList_toDigits, String.toList_ofList]
  cases n with
  | ofNat m =>
    have hneg : ¬(Int.ofNat m < 0) := by simp
    unfold Json.renderInt
    rw [if_neg hneg]
    exact hnat m
  | negSucc m =>
    unfold Json.renderInt
    rw [if_pos (Int.negSucc_lt_zero m)]
    show ("-" ++ toString (m + 1)).toList = _
    rw [String.toList_append, hnat]
    rfl

theorem chars_of_int {n : Int} {c : Char} (hc : c ∈ (toString n).toList) :
    c = '-' ∨ c.isDigit = true := by
  rw [toList_toString] at hc
  unfold Json.renderInt at hc
  split at hc
  · obtain rfl | hc := List.mem_cons.mp hc
    · exact .inl rfl
    · exact .inr (isDigit_toDigits hc)
  · exact .inr (isDigit_toDigits hc)

/-- The text of an integer is not that of a float. -/
theorem text_int_ne_float (n : Int) (x : Binary64) : toString n ≠ (PyFloat.finite x).text := by
  intro heq
  have hchars : ∀ c ∈ (PyFloat.finite x).text.toList, c = '-' ∨ c.isDigit = true := by
    intro c hc
    rw [← heq] at hc
    exact chars_of_int hc
  by_cases hx : x.value = 0
  · have htext : (PyFloat.finite x).text = "0.0" := by
      unfold PyFloat.text
      dsimp only
      rw [if_pos hx]
    rw [htext] at hchars
    exact absurd (hchars '.' (by decide)) (by decide)
  · rw [text_of_ne_zero hx] at hchars
    obtain hpoint | hexp := mem_magnitude x.value
    · exact absurd (hchars '.' (List.mem_append_right _ hpoint)) (by decide)
    · exact absurd (hchars 'e' (List.mem_append_right _ hexp)) (by decide)

variable {rt : Runtime}

/-- Numbers of one text are equal. -/
theorem IsNumber.text_inj {v w : Value} (hv : IsNumber v) (hw : IsNumber w)
    (htext : v.text rt = w.text rt) : v = w := by
  cases hv with
  | int n =>
    cases hw with
    | int m =>
      have hchars : Json.renderInt n ++ [] = Json.renderInt m ++ [] := by
        rw [List.append_nil, List.append_nil, ← toList_toString, ← toList_toString]
        exact congrArg String.toList htext
      rw [(Json.renderInt_inj (by simp [Json.Stops]) (by simp [Json.Stops]) hchars).1]
    | float y => exact absurd htext (text_int_ne_float n y)
  | float x =>
    cases hw with
    | int m => exact absurd htext.symm (text_int_ne_float m x)
    | float y => rw [PyFloat.text_inj htext]

/-- The text of a number ends with a digit. -/
theorem IsNumber.text_last {v : Value} (hv : IsNumber v) :
    ∃ ds d, (v.text rt).toList = ds ++ [d] ∧ d.isDigit = true := by
  cases hv with
  | int n =>
    have hne : Nat.toDigits 10 n.natAbs ≠ [] := Nat.toDigits_ne_nil
    have hsplit := (List.dropLast_append_getLast hne).symm
    have hdigit := isDigit_toDigits (List.getLast_mem hne)
    show ∃ ds d, (toString n).toList = ds ++ [d] ∧ d.isDigit = true
    rw [toList_toString]
    unfold Json.renderInt
    split
    · exact ⟨'-' :: (Nat.toDigits 10 n.natAbs).dropLast, _, by rw [List.cons_append, ← hsplit],
        hdigit⟩
    · exact ⟨_, _, hsplit, hdigit⟩
  | float x =>
    show ∃ ds d, (PyFloat.finite x).text.toList = ds ++ [d] ∧ d.isDigit = true
    by_cases hx : x.value = 0
    · have htext : (PyFloat.finite x).text = "0.0" := by
        unfold PyFloat.text
        dsimp only
        rw [if_pos hx]
      rw [htext]
      exact ⟨['0', '.'], '0', by decide, by decide⟩
    · obtain ⟨ds, d, hds, hd⟩ := magnitude_last x.value
      rw [text_of_ne_zero hx, hds, ← List.append_assoc]
      exact ⟨_, d, rfl, hd⟩

/-- Every digit is the text of an integer. -/
theorem exists_int_of_digit {d : Char} (hd : d.isDigit = true) :
    ∃ n : Nat, n < 10 ∧ (toString (n : Int)).toList = [d] := by
  have hall : ∀ n, n < 10 → Nat.digitChar n = Char.ofNat (48 + n) := by decide
  have hrange : 48 ≤ d.toNat ∧ d.toNat ≤ 57 := by
    unfold Char.isDigit at hd
    rw [Bool.and_eq_true, decide_eq_true_eq, decide_eq_true_eq] at hd
    exact ⟨hd.1, hd.2⟩
  refine ⟨d.toNat - 48, by omega, ?_⟩
  rw [toList_toString]
  unfold Json.renderInt
  rw [if_neg (by omega), Int.natAbs_natCast, Nat.toDigits_of_lt_base (by omega),
    hall _ (by omega), Nat.add_sub_cancel' hrange.1, Char.ofNat_toNat]

/-! ## What a signing text stands for -/

section Laws

variable (rt)

/-- The four signed fields. -/
structure SameFields (tx tx' : Transaction) : Prop where
  sender : tx.sender = tx'.sender
  recipient : tx.recipient = tx'.recipient
  amount : tx.amount = tx'.amount
  tip : tx.tip = tx'.tip

/-- The borders between the four fields are at the same places. -/
structure SameBorders (tx tx' : Transaction) : Prop where
  sender : (tx.sender.text rt).length = (tx'.sender.text rt).length
  recipient : (tx.recipient.text rt).length = (tx'.recipient.text rt).length
  amount : (tx.amount.text rt).length = (tx'.amount.text rt).length

/-- What stands behind the sender can be cut into a recipient and two numbers in one place only. -/
def OneCut (tx : Transaction) : Prop :=
  ∀ (recipient : String) (amount tip : Value), IsNumber amount → IsNumber tip →
    recipient ++ amount.text rt ++ tip.text rt =
      tx.recipient.text rt ++ tx.amount.text rt ++ tx.tip.text rt →
    recipient.length = (tx.recipient.text rt).length ∧
      (amount.text rt).length = (tx.amount.text rt).length

/-- No other recipient, amount or tip is accepted with the signature. -/
def Sealed {κ : Type} (c : Curve κ) (b64decode : Value → Option (List UInt8)) (tx : Transaction) :
    Prop :=
  ∀ tx', Ordinary tx' → tx'.sender = tx.sender → tx'.signature = tx.signature →
    isValid rt c b64decode tx' = true →
    tx'.recipient = tx.recipient ∧ tx'.amount = tx.amount ∧ tx'.tip = tx.tip

/-- A signature of a key verifies on one message at most. -/
def Binding {κ : Type} (c : Curve κ) : Prop :=
  ∀ key signature message message', c.verify key signature message = true →
    c.verify key signature message' = true → message = message'

end Laws

theorem append_inj_of_length {s t s' t' : String} (hlength : s.length = s'.length)
    (happend : s ++ t = s' ++ t') : s = s' ∧ t = t' := by
  have hlists : s.toList ++ t.toList = s'.toList ++ t'.toList := by
    rw [← String.toList_append, ← String.toList_append, happend]
  have hlength' : s.toList.length = s'.toList.length := by
    rwa [String.length_toList, String.length_toList]
  obtain ⟨hs, ht⟩ := List.append_inj hlists hlength'
  exact ⟨String.toList_inj.mp hs, String.toList_inj.mp ht⟩

/-- With the borders in one place, the text determines the fields. -/
theorem SameBorders.sameFields {tx tx' : Transaction} (htx : Ordinary tx) (htx' : Ordinary tx')
    (hborders : SameBorders rt tx tx') (hdata : transactionData rt tx = transactionData rt tx') :
    SameFields tx tx' := by
  unfold transactionData at hdata
  simp only [String.append_assoc] at hdata
  obtain ⟨hsender, hdata⟩ := append_inj_of_length hborders.sender hdata
  obtain ⟨hrecipient, hdata⟩ := append_inj_of_length hborders.recipient hdata
  obtain ⟨hamount, htip⟩ := append_inj_of_length hborders.amount hdata
  obtain ⟨s, hs⟩ := htx.sender
  obtain ⟨s', hs'⟩ := htx'.sender
  obtain ⟨r, hr⟩ := htx.recipient
  obtain ⟨r', hr'⟩ := htx'.recipient
  rw [hs, hs'] at hsender
  rw [hr, hr'] at hrecipient
  refine ⟨?_, ?_, htx.amount.text_inj htx'.amount hamount, htx.tip.text_inj htx'.tip htip⟩
  · rw [hs, hs']
    exact congrArg Value.str hsender
  · rw [hr, hr']
    exact congrArg Value.str hrecipient

theorem SameFields.sameBorders {tx tx' : Transaction} (hfields : SameFields tx tx') :
    SameBorders rt tx tx' where
  sender := by rw [hfields.sender]
  recipient := by rw [hfields.recipient]
  amount := by rw [hfields.amount]

/-- An amount of more than one character leaves its last digit to another amount. -/
theorem one_digit_of_oneCut {tx : Transaction} (htx : Ordinary tx) (hcut : OneCut rt tx) :
    ∃ n : Nat, n < 10 ∧ tx.amount = .int n := by
  obtain ⟨ds, d, hamount, hd⟩ := @IsNumber.text_last rt _ htx.amount
  obtain ⟨n, hn, hdigit⟩ := exists_int_of_digit hd
  have hshift : tx.recipient.text rt ++ String.ofList ds ++ (Value.int n).text rt ++
      tx.tip.text rt = tx.recipient.text rt ++ tx.amount.text rt ++ tx.tip.text rt := by
    have hsplit : tx.amount.text rt = String.ofList ds ++ (Value.int n).text rt := by
      rw [← String.toList_inj, String.toList_append, hamount, String.toList_ofList]
      exact congrArg (ds ++ ·) hdigit.symm
    rw [hsplit]
    simp only [String.append_assoc]
  obtain ⟨hlength, -⟩ := hcut _ _ _ (.int n) htx.tip hshift
  have hds : ds = [] := by
    rw [String.length_append, String.length_ofList] at hlength
    exact List.length_eq_zero_iff.mp (by omega)
  refine ⟨n, hn, @IsNumber.text_inj rt _ _ htx.amount (.int n) ?_⟩
  rw [← String.toList_inj, hamount, hds]
  exact hdigit.symm

variable {κ : Type} {c : Curve κ} {b64decode : Value → Option (List UInt8)}

/-- An ordinary transaction is valid by its signature. -/
theorem isValid_iff {tx : Transaction} (hsystem : isSystem tx = false) :
    isValid rt c b64decode tx = true ↔
      tx.signature.truthy = true ∧ ∃ key signature, c.publicKey tx.sender = some key ∧
        (b64decode tx.signature).bind legacySignatureFromRaw = some signature ∧
        c.verify key signature (encodeUtf8 (transactionData rt tx)) = true := by
  unfold isValid
  rw [hsystem, Bool.false_or, Bool.and_eq_true]
  refine and_congr_right fun _ => ?_
  cases c.publicKey tx.sender with
  | none => simp
  | some key =>
    cases (b64decode tx.signature).bind legacySignatureFromRaw with
    | none => simp
    | some signature => simp

/-- A valid signature stands for its recipient, amount and tip exactly when their text can be cut
in one place only. -/
theorem sealed_iff (hbinding : Binding c) {tx : Transaction} (htx : Ordinary tx)
    (hvalid : isValid rt c b64decode tx = true) :
    Sealed rt c b64decode tx ↔ OneCut rt tx := by
  obtain ⟨hsigned, key, signature, hkey, hsignature, hverify⟩ := (isValid_iff htx.signed).mp hvalid
  constructor
  · intro hsealed recipient amount tip hamount htip htext
    -- the other cut carries the same signature
    have hordinary : Ordinary { tx with recipient := .str recipient, amount, tip } :=
      ⟨htx.sender, ⟨recipient, rfl⟩, hamount, htip, htx.signed⟩
    have hdata : transactionData rt { tx with recipient := .str recipient, amount, tip } =
        transactionData rt tx := by
      unfold transactionData
      show tx.sender.text rt ++ recipient ++ amount.text rt ++ tip.text rt = _
      simp only [String.append_assoc] at htext ⊢
      rw [htext]
    obtain ⟨hr, ha, -⟩ := hsealed _ hordinary rfl rfl
      ((isValid_iff hordinary.signed).mpr ⟨hsigned, key, signature, hkey, hsignature,
        hdata ▸ hverify⟩)
    rw [← hr, ← ha]
    exact ⟨rfl, rfl⟩
  · intro hcut tx' htx' hsender hsame hvalid'
    obtain ⟨-, key', signature', hkey', hsignature', hverify'⟩ :=
      (isValid_iff htx'.signed).mp hvalid'
    rw [hsender, hkey] at hkey'
    rw [hsame, hsignature] at hsignature'
    obtain rfl := Option.some.inj hkey'
    obtain rfl := Option.some.inj hsignature'
    have hdata : transactionData rt tx' = transactionData rt tx :=
      encodeUtf8_inj.mp (hbinding _ _ _ _ hverify' hverify)
    obtain ⟨r', hr'⟩ := htx'.recipient
    have htext : r' ++ tx'.amount.text rt ++ tx'.tip.text rt =
        tx.recipient.text rt ++ tx.amount.text rt ++ tx.tip.text rt := by
      unfold transactionData at hdata
      rw [hsender, hr'] at hdata
      simp only [String.append_assoc] at hdata ⊢
      exact (append_inj_of_length rfl hdata).2
    obtain ⟨hrecipient, hamount⟩ := hcut r' _ _ htx'.amount htx'.tip htext
    have hborders : SameBorders rt tx' tx :=
      ⟨by rw [hsender], by rw [hr']; exact hrecipient, hamount⟩
    have hfields := hborders.sameFields htx' htx hdata
    exact ⟨hfields.recipient, hfields.amount, hfields.tip⟩

namespace SampleSignature

def sender : String := "02ec8afeff57094a412f49db9d92b91fc97b7597ef26d7acbf8825c5befb46940d"

def recipient : String := "034f355bdcb7cc0af728ef3cceb9615d90684bb5b2ca5f859ab0f0b704075871aa"

/-- A curve with one key, which has signed the text of the samples. -/
def curve : Curve Unit where
  publicKey _ := some ()
  verify _ _ message := decide (message = encodeUtf8 (sender ++ recipient ++ "123"))

theorem binding : Binding curve := by
  intro key signature message message' hmessage hmessage'
  exact (of_decide_eq_true hmessage).trans (of_decide_eq_true hmessage').symm

/-- A signature whose two numbers are one. -/
def decoded (_ : Value) : Option (List UInt8) :=
  some (List.replicate 31 0 ++ [1] ++ List.replicate 31 0 ++ [1])

def pays (amount tip : Int) : Transaction where
  sender := .str sender
  recipient := .str recipient
  amount := .int amount
  tip := .int tip
  payloadSizeKb := .int 0
  signature := .str "AQ=="
  createdAt := .int 0

theorem ordinary_pays (amount tip : Int) : Ordinary (pays amount tip) where
  sender := ⟨_, rfl⟩
  recipient := ⟨_, rfl⟩
  amount := .int amount
  tip := .int tip
  signed := by
    show (Value.pyEq (.str sender) (.str "GENESIS") ||
      Value.pyEq (.str sender) (.str "REWARD_POOL")) = false
    decide +kernel

theorem sameData :
    transactionData asciiRuntime (pays 1 23) = transactionData asciiRuntime (pays 12 3) := by
  decide +kernel

end SampleSignature

end ZoidbergChain.LegacyTransaction
