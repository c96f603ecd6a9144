import ZoidbergChain.LedgerViews

/-!
# Reservations

What the ledger of pending transfers is for: every wallet has reserved the nonces that follow its
settled ones, without a gap, and no more funds than its final balance. `Book.admit` says that a
transfer may be added when it is admissible.
-/

namespace ZoidbergChain

open Python

/-- A record of the ledger: its transfer, and whether that is pending or settled. -/
structure Reservation where
  transfer : Transfer
  pending : Bool

/-- The settled transfers. -/
def settledOf (es : List Reservation) : List Transfer :=
  (es.filter fun e => !e.pending).map Reservation.transfer

/-- The pending transfers. -/
def pendingOf (es : List Reservation) : List Transfer :=
  (es.filter fun e => e.pending).map Reservation.transfer

/-- The funds that a wallet spends in some transfers. -/
def costOf (wallet : String) (fs : List Transfer) : Rat :=
  ((fs.filter fun f => f.sender = wallet).map fun f => f.amount + f.fee).sum

theorem noncesOf_append (wallet : String) (fs gs : List Transfer) :
    noncesOf wallet (fs ++ gs) = noncesOf wallet fs ++ noncesOf wallet gs := by
  unfold noncesOf
  rw [List.filter_append, List.map_append]

theorem costOf_append (wallet : String) (fs gs : List Transfer) :
    costOf wallet (fs ++ gs) = costOf wallet fs + costOf wallet gs := by
  unfold costOf
  rw [List.filter_append, List.map_append, List.sum_append]

theorem mem_noncesOf {wallet : String} {fs : List Transfer} {n : Int} :
    n ∈ noncesOf wallet fs ↔ ∃ f ∈ fs, f.sender = wallet ∧ f.nonce = n := by
  simp [noncesOf, and_assoc]

theorem noncesOf_self (f : Transfer) : noncesOf f.sender [f] = [f.nonce] := by simp [noncesOf]

theorem noncesOf_of_ne {wallet : String} {f : Transfer} (hne : f.sender ≠ wallet) :
    noncesOf wallet [f] = [] := by
  simp [noncesOf, hne]

theorem costOf_self (f : Transfer) : costOf f.sender [f] = f.amount + f.fee := by simp [costOf]

theorem costOf_of_ne {wallet : String} {f : Transfer} (hne : f.sender ≠ wallet) :
    costOf wallet [f] = 0 := by
  simp [costOf, hne]

theorem pendingOf_reserved (es : List Reservation) (f : Transfer) :
    pendingOf (es ++ [⟨f, true⟩]) = pendingOf es ++ [f] := by
  simp [pendingOf]

theorem settledOf_reserved (es : List Reservation) (f : Transfer) :
    settledOf (es ++ [⟨f, true⟩]) = settledOf es := by
  simp [settledOf]

/-- Every record is settled or pending. -/
theorem mem_noncesOf_transfers {wallet : String} {es : List Reservation} {n : Int} :
    n ∈ noncesOf wallet (es.map Reservation.transfer) ↔
      n ∈ noncesOf wallet (settledOf es) ++ noncesOf wallet (pendingOf es) := by
  rw [List.mem_append, mem_noncesOf, mem_noncesOf, mem_noncesOf]
  constructor
  · rintro ⟨f, hf, hrest⟩
    obtain ⟨e, he, rfl⟩ := List.mem_map.mp hf
    by_cases hpending : e.pending = true
    · exact .inr ⟨_, List.mem_map_of_mem (List.mem_filter.mpr ⟨he, hpending⟩), hrest⟩
    · refine .inl ⟨_, List.mem_map_of_mem (List.mem_filter.mpr ⟨he, ?_⟩), hrest⟩
      simpa using hpending
  · rintro (⟨f, hf, hrest⟩ | ⟨f, hf, hrest⟩) <;> obtain ⟨e, he, rfl⟩ := List.mem_map.mp hf <;>
      exact ⟨_, List.mem_map_of_mem (List.mem_filter.mp he).1, hrest⟩

/-- The order of the ledger: over the final balances and the next settled nonces, what is pending
is gapless and covered. -/
structure Book (final : String → Py Decimal) (next : String → Int) (es : List Reservation) :
    Prop where
  settled : ∀ wallet,
    Consumes nativeTransactionInitialNonce (next wallet) (noncesOf wallet (settledOf es))
  gapless : ∀ wallet, ∃ next', Consumes (next wallet) next' (noncesOf wallet (pendingOf es))
  distinct : ∀ wallet, (noncesOf wallet (pendingOf es)).Nodup
  covered : ∀ wallet, noncesOf wallet (pendingOf es) ≠ [] → ∃ balance,
    final wallet = .ok balance ∧ balance.lt (.finite (costOf wallet (pendingOf es))) = .ok false

/-- What the policy asks of a transfer: the next nonce of its sender, and the funds. -/
structure Admissible (final : String → Py Decimal) (es : List Reservation) (f : Transfer) :
    Prop where
  fresh : f.nonce ∉ noncesOf f.sender (es.map Reservation.transfer)
  inOrder : ∀ n, nativeTransactionInitialNonce ≤ n → n < f.nonce →
    n ∈ noncesOf f.sender (es.map Reservation.transfer)
  positive : nativeTransactionInitialNonce ≤ f.nonce
  covered : ∃ balance, final f.sender = .ok balance ∧
    balance.lt (.finite (costOf f.sender (pendingOf es) + (f.amount + f.fee))) = .ok false

variable {final : String → Py Decimal} {next : String → Int} {es : List Reservation}
  {f : Transfer}

/-- The nonce of an admissible transfer ends the run of its sender. -/
theorem Admissible.nonce_eq {next' : Int} (ha : Admissible final es f)
    (hsettled : Consumes nativeTransactionInitialNonce (next f.sender)
      (noncesOf f.sender (settledOf es)))
    (hpending : Consumes (next f.sender) next' (noncesOf f.sender (pendingOf es))) :
    f.nonce = next' := by
  have hall := (hsettled.append hpending).mem_iff
  have hfresh := ha.fresh
  rw [mem_noncesOf_transfers, hall] at hfresh
  have hpositive := ha.positive
  by_contra hne
  obtain hlt | hgt := lt_or_gt_of_ne hne
  · exact hfresh ⟨hpositive, hlt⟩
  · have hmem := ha.inOrder next' (hsettled.le.trans hpending.le) hgt
    rw [mem_noncesOf_transfers, hall] at hmem
    exact lt_irrefl _ hmem.2

/-- An admissible transfer keeps the order. -/
theorem Book.admit (hb : Book final next es) (ha : Admissible final es f) :
    Book final next (es ++ [⟨f, true⟩]) := by
  constructor
  · intro wallet
    rw [settledOf_reserved]
    exact hb.settled wallet
  · intro wallet
    obtain ⟨next', hnext⟩ := hb.gapless wallet
    rw [pendingOf_reserved, noncesOf_append]
    by_cases hs : f.sender = wallet
    · subst hs
      obtain rfl := ha.nonce_eq (hb.settled _) hnext
      refine ⟨f.nonce + 1, hnext.append ⟨by omega, fun n => ?_⟩⟩
      rw [noncesOf_self, List.mem_singleton]
      omega
    · rw [noncesOf_of_ne hs, List.append_nil]
      exact ⟨next', hnext⟩
  · intro wallet
    rw [pendingOf_reserved, noncesOf_append]
    by_cases hs : f.sender = wallet
    · subst hs
      rw [noncesOf_self, List.nodup_append]
      refine ⟨hb.distinct _, List.nodup_singleton _, ?_⟩
      rintro n hn _ hmem rfl
      obtain rfl := List.mem_singleton.mp hmem
      exact ha.fresh (mem_noncesOf_transfers.mpr (List.mem_append_right _ hn))
    · rw [noncesOf_of_ne hs, List.append_nil]
      exact hb.distinct wallet
  · intro wallet hne
    rw [pendingOf_reserved, noncesOf_append] at hne
    rw [pendingOf_reserved, costOf_append]
    by_cases hs : f.sender = wallet
    · subst hs
      rw [costOf_self]
      exact ha.covered
    · rw [noncesOf_of_ne hs, List.append_nil] at hne
      rw [costOf_of_ne hs, add_zero]
      exact hb.covered wallet hne

end ZoidbergChain
