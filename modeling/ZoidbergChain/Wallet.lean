import ZoidbergChain.Python.Number

/-!
# Wallet identities

The three normalizers of the repository. Two are called
`normalize_wallet_address`: the one of the transfer protocol wants a literal `0x`
prefix (native_transfer.py:46–53), the one of the wallet layer also takes `0X`
(wallet_signatures.py:11–18). `normalize_wallet_identity` of the ledger tries the
latter and then a 66-digit public key (native_ledger_service.py:56–64).

An address that one of them returns is `IsWalletAddress`, and all three return it
unchanged.
-/

namespace ZoidbergChain

open Python

/-- A canonical address: `0x` and 40 lower-case hexadecimal digits. -/
def IsWalletAddress (a : String) : Prop :=
  ∃ hex : List Char, hex.length = 40 ∧ hex.all isLowerHex = true ∧
    a = String.ofList ('0' :: 'x' :: hex)

/-- The 40 digits behind an accepted prefix, in lower case. -/
def addressOfChars (isPrefix : Char → Bool) : List Char → Option String
  | '0' :: x :: hex =>
    if isPrefix x ∧ hex.length = 40 ∧ hex.all isHex then
      some (String.ofList ('0' :: 'x' :: hex.map Char.toLower))
    else none
  | _ => none

/-- `native_transfer.normalize_wallet_address`. -/
def NativeTransfer.normalizeWalletAddress (rt : Runtime) (value : Value) : Option String :=
  addressOfChars (· == 'x') (value.trimmed rt).toList

/-- `wallet_signatures.normalize_wallet_address`. -/
def WalletSignatures.normalizeWalletAddress (rt : Runtime) (value : Value) : Option String :=
  addressOfChars (fun c => c == 'x' || c == 'X') (value.trimmed rt).toList

/-- `validators.is_valid_wallet_public_key`, on a stripped text. -/
def isValidWalletPublicKey (s : String) : Bool :=
  s.toList.length == 66 && s.toList.all isLowerHex

/-- `NativeLedgerService.normalize_wallet_identity`. An Ethereum address was already
taken by the first test, so only a public key can pass the second. -/
def normalizeWalletIdentity (rt : Runtime) (value : Value) : Option String :=
  let candidate := value.trimmed rt
  (WalletSignatures.normalizeWalletAddress rt (.str candidate)).or
    (if isValidWalletPublicKey candidate then some candidate else none)

/-! ## Normalized identities are fixed points -/

theorem lt_of_isHex {c : Char} (h : isHex c = true) : c.toNat < 103 := by
  have h9 : ('9' : Char).toNat = 57 := rfl
  have hf : ('f' : Char).toNat = 102 := rfl
  have hF : ('F' : Char).toNat = 70 := rfl
  simp only [isHex, isLowerHex, Char.isDigit, Bool.or_eq_true, Bool.and_eq_true,
    decide_eq_true_eq, Char.le_def, UInt32.le_iff_toNat_le, ge_iff_le] at h
  simp only [← Char.toNat_val] at *
  omega

/-- The lower case of a hexadecimal digit is a lower-case one, and a lower-case
one is kept. -/
theorem toLower_of_isHex {c : Char} (h : isHex c = true) :
    isLowerHex c.toLower = true ∧ (isLowerHex c = true → c.toLower = c) := by
  obtain ⟨n, hn, rfl⟩ : ∃ n, n < 103 ∧ c = Char.ofNat n :=
    ⟨c.toNat, lt_of_isHex h, (Char.ofNat_toNat c).symm⟩
  revert h
  revert n
  decide

theorem isHex_of_isLowerHex {c : Char} (h : isLowerHex c = true) : isHex c = true := by
  simp [isHex, h]

theorem isWalletAddress_of_addressOfChars {p : Char → Bool} {cs : List Char} {a : String}
    (h : addressOfChars p cs = some a) : IsWalletAddress a := by
  unfold addressOfChars at h
  split at h
  · next x hex =>
    split at h
    · next hc =>
      obtain ⟨-, hlen, hall⟩ := hc
      refine ⟨hex.map Char.toLower, by simpa using hlen, ?_, by simpa using h.symm⟩
      simp only [List.all_map, List.all_eq_true, Function.comp] at hall ⊢
      exact fun c hc => (toLower_of_isHex (hall c hc)).1
    · cases h
  · cases h

theorem addressOfChars_of_hex {p : Char → Bool} (hp : p 'x' = true) {hex : List Char}
    (hlen : hex.length = 40) (hall : hex.all isLowerHex = true) :
    addressOfChars p ('0' :: 'x' :: hex) = some (String.ofList ('0' :: 'x' :: hex)) := by
  rw [List.all_eq_true] at hall
  have hhex : hex.all isHex = true :=
    List.all_eq_true.mpr fun c hc => isHex_of_isLowerHex (hall c hc)
  have hmap : hex.map Char.toLower = hex := by
    conv_rhs => rw [← List.map_id hex]
    exact List.map_congr_left fun c hc =>
      (toLower_of_isHex (isHex_of_isLowerHex (hall c hc))).2 (hall c hc)
  simp [addressOfChars, hp, hlen, hhex, hmap]

theorem IsWalletAddress.ne_empty {a : String} (h : IsWalletAddress a) : a ≠ "" := by
  obtain ⟨hex, -, -, rfl⟩ := h
  simp [← String.toList_inj]

/-- A canonical address has no white space to strip. -/
theorem IsWalletAddress.strip_eq {a : String} (h : IsWalletAddress a) : strip a = a := by
  obtain ⟨hex, -, hall, rfl⟩ := h
  refine strip_of_forall fun c hc => ?_
  simp only [String.toList_ofList, List.mem_cons, List.all_eq_true] at hc hall
  rcases hc with rfl | rfl | hc
  · decide
  · decide
  · exact not_isSpace_of_isHex (isHex_of_isLowerHex (hall c hc))

theorem IsWalletAddress.trimmed {rt : Runtime} {a : String} (h : IsWalletAddress a) :
    Value.trimmed rt (.str a) = a := by
  rw [Value.trimmed_str, h.strip_eq]

theorem NativeTransfer.isWalletAddress_of_normalize {rt : Runtime} {v : Value} {a : String}
    (h : NativeTransfer.normalizeWalletAddress rt v = some a) : IsWalletAddress a :=
  isWalletAddress_of_addressOfChars h

theorem NativeTransfer.normalizeWalletAddress_str {rt : Runtime} {a : String}
    (h : IsWalletAddress a) : NativeTransfer.normalizeWalletAddress rt (.str a) = some a := by
  unfold NativeTransfer.normalizeWalletAddress
  rw [h.trimmed]
  obtain ⟨hex, hlen, hall, rfl⟩ := h
  rw [String.toList_ofList]
  exact addressOfChars_of_hex rfl hlen hall

theorem WalletSignatures.normalizeWalletAddress_str {rt : Runtime} {a : String}
    (h : IsWalletAddress a) : WalletSignatures.normalizeWalletAddress rt (.str a) = some a := by
  unfold WalletSignatures.normalizeWalletAddress
  rw [h.trimmed]
  obtain ⟨hex, hlen, hall, rfl⟩ := h
  rw [String.toList_ofList]
  exact addressOfChars_of_hex rfl hlen hall

/-- The ledger reads a canonical address as itself. -/
theorem normalizeWalletIdentity_str {rt : Runtime} {a : String}
    (h : IsWalletAddress a) : normalizeWalletIdentity rt (.str a) = some a := by
  unfold normalizeWalletIdentity
  simp only [h.trimmed, WalletSignatures.normalizeWalletAddress_str h, Option.some_or]

theorem normalizeWalletIdentity_ne_empty {rt : Runtime} {v : Value} {w : String}
    (hw : normalizeWalletIdentity rt v = some w) : w ≠ "" := by
  rintro rfl
  unfold normalizeWalletIdentity at hw
  dsimp only at hw
  generalize v.trimmed rt = candidate at hw
  cases haddress : WalletSignatures.normalizeWalletAddress rt (.str candidate) with
  | some a =>
    rw [haddress, Option.some_or, Option.some.injEq] at hw
    exact (isWalletAddress_of_addressOfChars haddress).ne_empty hw
  | none =>
    rw [haddress, Option.none_or] at hw
    split at hw
    · next hkey =>
      obtain rfl := Option.some.inj hw
      exact absurd hkey (by decide)
    · cases hw

/-- A name without a wallet in it is not normalized. -/
theorem normalizeWalletIdentity_eq_none {rt : Runtime} {s : String} (hs : strip s = s)
    (haddress : ∀ p, addressOfChars p s.toList = none) (hkey : isValidWalletPublicKey s = false) :
    normalizeWalletIdentity rt (.str s) = none := by
  simp only [normalizeWalletIdentity, WalletSignatures.normalizeWalletAddress, Value.trimmed_str,
    hs, haddress, hkey, Option.none_or, Bool.false_eq_true, if_false]

end ZoidbergChain
