import Mathlib

/-!
# Dictionaries of one type

A Python `dict` whose keys have one type and whose values have one: its entries in
insertion order. `Table.get?` reads the first entry of a key, which is the only one a
`dict` can have.
-/

namespace Python

/-- The entries of a `dict`, in insertion order. -/
abbrev Table (κ α : Type) := List (κ × α)

namespace Table

variable {κ α : Type}

/-- The keys in insertion order. -/
def keys (t : Table κ α) : List κ := t.map Prod.fst

/-- The values in insertion order. -/
def values (t : Table κ α) : List α := t.map Prod.snd

variable [DecidableEq κ]

/-- `t.get(key)`. -/
def get? (t : Table κ α) (key : κ) : Option α :=
  match t with
  | [] => none
  | (k, a) :: rest => if k = key then some a else get? rest key

/-- `t[key] = a`: an existing key keeps its place. -/
def set (t : Table κ α) (key : κ) (a : α) : Table κ α :=
  match t with
  | [] => [(key, a)]
  | (k, b) :: rest => if k = key then (k, a) :: rest else (k, b) :: set rest key a

@[simp] theorem get?_nil (key : κ) : get? ([] : Table κ α) key = none := rfl

theorem get?_cons (k : κ) (a : α) (t : Table κ α) (key : κ) :
    get? ((k, a) :: t) key = if k = key then some a else get? t key := rfl

theorem get?_set (t : Table κ α) (key key' : κ) (a : α) :
    (t.set key a).get? key' = if key = key' then some a else t.get? key' := by
  induction t with
  | nil => simp [set, get?]
  | cons e t ih =>
    obtain ⟨k, b⟩ := e
    by_cases hk : k = key
    · subst hk
      by_cases hk' : k = key' <;> simp [set, get?, hk']
    · simp only [set, if_neg hk, get?_cons, ih]
      by_cases hk' : k = key'
      · subst hk'
        simp [Ne.symm hk]
      · simp [hk']

@[simp] theorem get?_set_self (t : Table κ α) (key : κ) (a : α) :
    (t.set key a).get? key = some a := by simp [get?_set]

theorem get?_set_of_ne {t : Table κ α} {key key' : κ} {a : α} (h : key ≠ key') :
    (t.set key a).get? key' = t.get? key' := by simp [get?_set, h]

theorem get?_set_eq_some {t : Table κ α} {key key' : κ} {a b : α} :
    (t.set key a).get? key' = some b ↔ key' = key ∧ b = a ∨ key' ≠ key ∧ t.get? key' = some b := by
  rw [get?_set]
  by_cases h : key = key'
  · simp [h, eq_comm]
  · simp [h, Ne.symm h]

theorem mem_of_get? {t : Table κ α} {key : κ} {a : α} (h : t.get? key = some a) :
    (key, a) ∈ t := by
  induction t with
  | nil => cases h
  | cons e t ih =>
    obtain ⟨k, b⟩ := e
    rw [get?_cons] at h
    split at h
    · next hk =>
      obtain rfl := Option.some.inj h
      simp [hk]
    · exact List.mem_cons_of_mem _ (ih h)

theorem get?_of_mem {t : Table κ α} {key : κ} {a : α} (hkeys : t.keys.Nodup)
    (h : (key, a) ∈ t) : t.get? key = some a := by
  induction t with
  | nil => cases h
  | cons e t ih =>
    obtain ⟨k, b⟩ := e
    obtain ⟨hk, hkeys⟩ : k ∉ keys t ∧ (keys t).Nodup := List.nodup_cons.mp hkeys
    rw [get?_cons]
    obtain heq | h := List.mem_cons.mp h
    · cases heq
      exact if_pos rfl
    · have hne : k ≠ key := by
        rintro rfl
        exact hk (List.mem_map_of_mem (f := Prod.fst) h)
      rw [if_neg hne]
      exact ih hkeys h

theorem get?_eq_none {t : Table κ α} {key : κ} : t.get? key = none ↔ key ∉ t.keys := by
  induction t with
  | nil => simp [keys]
  | cons e t ih =>
    obtain ⟨k, a⟩ := e
    by_cases hk : k = key
    · simp [get?_cons, keys, hk]
    · simpa [get?_cons, keys, hk, Ne.symm hk] using ih

theorem get?_append (t u : Table κ α) (key : κ) :
    get? (t ++ u) key = (t.get? key).or (u.get? key) := by
  induction t with
  | nil => rfl
  | cons e t ih =>
    obtain ⟨k, a⟩ := e
    rw [List.cons_append, get?_cons, get?_cons, ih]
    split <;> rfl

theorem mem_set {t : Table κ α} {key : κ} {a : α} {e : κ × α} (h : e ∈ t.set key a) :
    e = (key, a) ∨ e ∈ t := by
  induction t with
  | nil => exact Or.inl (List.mem_singleton.mp h)
  | cons f t ih =>
    obtain ⟨k, b⟩ := f
    by_cases hk : k = key
    · rw [set, if_pos hk, hk] at h
      obtain rfl | h := List.mem_cons.mp h
      · exact Or.inl rfl
      · exact Or.inr (List.mem_cons_of_mem _ h)
    · rw [set, if_neg hk] at h
      obtain rfl | h := List.mem_cons.mp h
      · exact Or.inr (List.mem_cons_self ..)
      · exact (ih h).imp_right (List.mem_cons_of_mem _)

/-- Setting what is there changes nothing. -/
theorem set_of_get? {t : Table κ α} {key : κ} {a : α} (h : t.get? key = some a) :
    t.set key a = t := by
  induction t with
  | nil => cases h
  | cons e t ih =>
    obtain ⟨k, b⟩ := e
    rw [get?_cons] at h
    by_cases hk : k = key
    · rw [if_pos hk] at h
      obtain rfl := Option.some.inj h
      simp [set, hk]
    · rw [if_neg hk] at h
      simp [set, hk, ih h]

theorem mem_iff_get? {t : Table κ α} (hkeys : t.keys.Nodup) {e : κ × α} :
    e ∈ t ↔ t.get? e.1 = some e.2 :=
  ⟨get?_of_mem hkeys, mem_of_get?⟩

theorem get?_filter (t : Table κ α) (p : κ → Bool) (key : κ) :
    get? (t.filter fun e => p e.1) key = if p key then t.get? key else none := by
  induction t with
  | nil => simp
  | cons e t ih =>
    obtain ⟨k, a⟩ := e
    rw [List.filter_cons]
    by_cases hk : k = key
    · subst hk
      by_cases hp : p k = true
      · simp [hp, get?_cons]
      · simp [hp, ih]
    · by_cases hp : p k = true
      · simp [hp, get?_cons, hk, ih]
      · simp [hp, get?_cons, hk, ih]

/-- A new key goes to the end. -/
theorem set_of_notMem {t : Table κ α} {key : κ} {a : α} (h : key ∉ t.keys) :
    t.set key a = t ++ [(key, a)] := by
  induction t with
  | nil => rfl
  | cons e t ih =>
    obtain ⟨k, b⟩ := e
    obtain ⟨hk, ht⟩ : ¬key = k ∧ key ∉ keys t := by simpa [keys] using h
    simp [set, Ne.symm hk, ih ht]

/-- A present key stays where it is. -/
theorem keys_set_of_mem {t : Table κ α} {key : κ} {a : α} (h : key ∈ t.keys) :
    (t.set key a).keys = t.keys := by
  induction t with
  | nil => cases h
  | cons e t ih =>
    obtain ⟨k, b⟩ := e
    by_cases hk : k = key
    · simp [set, hk, keys]
    · have ht : key ∈ keys t := by simpa [keys, Ne.symm hk] using h
      have := ih ht
      simpa [set, hk, keys] using this

theorem keys_set_nodup {t : Table κ α} {key : κ} {a : α} (hkeys : t.keys.Nodup) :
    (t.set key a).keys.Nodup := by
  by_cases h : key ∈ t.keys
  · rwa [keys_set_of_mem h]
  · rw [set_of_notMem h]
    have hdisjoint : keys t ++ [key] = keys (t ++ [(key, a)]) := by simp [keys]
    rw [← hdisjoint, List.nodup_append]
    refine ⟨hkeys, by simp, ?_⟩
    rintro x hx y hy rfl
    exact h (List.mem_singleton.mp hy ▸ hx)

end Table

end Python
