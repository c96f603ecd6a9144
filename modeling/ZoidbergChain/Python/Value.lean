import ZoidbergChain.Python.Numeral

/-!
# Python values

The data a dynamically typed Python service passes around: the JSON types plus
`bytes`, with the operations the language gives them (truth value, `==`,
hashability, `dict` access).

- `Value` is the datum. A `dict` is an association list with string keys in
  insertion order; `Dict.get?` reads the first entry of a key, which is the only
  one a Python `dict` can have.
- `Py` is the result of running code: a value or the exception it raises.
- `Value.pyEq` is Python's `==` (numeric types compare across each other, `dict`
  equality ignores the order of the keys), and `Value.hashKey` is what a `set`
  or a `dict` key is compared by.
- `Runtime` is the part of the runtime whose tables are not written out: full
  Unicode lower-casing (ASCII is fixed by a law), and `repr`.

A `float` is its exact value: `-0.0` and `0.0`, which no operation here tells
apart, are one value.
-/

namespace Python

/-- A Python value as it comes out of a JSON document, or `bytes`. -/
inductive Value where
  | null
  | bool (b : Bool)
  | int (n : Int)
  | float (f : PyFloat)
  | str (s : String)
  | bytes (b : List UInt8)
  | list (xs : List Value)
  | dict (entries : List (String × Value))

/-- The entries of a `dict`, in insertion order. -/
abbrev Dict := List (String × Value)

/-! ## Structural equality is decidable -/

mutual

/-- Structural equality of values, as a Boolean. -/
def Value.same : Value → Value → Bool
  | .null, .null => true
  | .bool a, .bool b => a == b
  | .int a, .int b => a == b
  | .float a, .float b => decide (a = b)
  | .str a, .str b => a == b
  | .bytes a, .bytes b => a == b
  | .list a, .list b => Value.sameList a b
  | .dict a, .dict b => Value.sameDict a b
  | _, _ => false

/-- `Value.same` on the items of a list. -/
def Value.sameList : List Value → List Value → Bool
  | [], [] => true
  | a :: as, b :: bs => Value.same a b && Value.sameList as bs
  | _, _ => false

/-- `Value.same` on the entries of a `dict`. -/
def Value.sameDict : List (String × Value) → List (String × Value) → Bool
  | [], [] => true
  | (k, a) :: as, (l, b) :: bs => k == l && Value.same a b && Value.sameDict as bs
  | _, _ => false

end

mutual

theorem Value.same_iff : ∀ a b : Value, Value.same a b = true ↔ a = b
  | .null, b => by cases b <;> simp [Value.same]
  | .bool _, b => by cases b <;> simp [Value.same]
  | .int _, b => by cases b <;> simp [Value.same]
  | .float _, b => by cases b <;> simp [Value.same]
  | .str _, b => by cases b <;> simp [Value.same]
  | .bytes _, b => by cases b <;> simp [Value.same]
  | .list xs, b => by
    cases b <;> simp [Value.same, Value.sameList_iff xs]
  | .dict es, b => by
    cases b <;> simp [Value.same, Value.sameDict_iff es]

theorem Value.sameList_iff : ∀ as bs : List Value, Value.sameList as bs = true ↔ as = bs
  | [], bs => by cases bs <;> simp [Value.sameList]
  | a :: as, bs => by
    cases bs <;> simp [Value.sameList, Value.same_iff a, Value.sameList_iff as]

theorem Value.sameDict_iff :
    ∀ as bs : List (String × Value), Value.sameDict as bs = true ↔ as = bs
  | [], bs => by cases bs <;> simp [Value.sameDict]
  | (k, a) :: as, bs => by
    cases bs <;> simp [Value.sameDict, Value.same_iff a, Value.sameDict_iff as, Prod.ext_iff]

end

instance : DecidableEq Value := fun a b =>
  decidable_of_iff (Value.same a b = true) (Value.same_iff a b)

/-! ## Exceptions -/

/-- The exception classes that the modelled code tells apart. `UnicodeDecodeError` and
the validation and synchronization errors of the repository are subclasses of `ValueError`;
`decimal.InvalidOperation` is an `ArithmeticError`, not a `ValueError`. -/
inductive Exc where
  | valueError
  | unicodeDecodeError
  | nativeTransactionValidationError
  | nativeBlockValidationError
  | typeError
  | keyError
  | attributeError
  | indexError
  | overflowError
  | invalidOperation
  | stopIteration
  | zeroDivisionError
  | peerSyncError
  | runtimeError
  | rejected
  | v3Error
  | finalityAttestationError
  | finalityStateConflictError
  | unavailable
  | staleState
  | corruptState
  | cryptoFailure
  | storageCorruptionError
  | storageUniquenessError
  | staleCanonicalHeadError
  | integrityError
  | operationalError
  deriving DecidableEq

/-- A raised exception: its class, its message, and, for the exceptions that carry
them, the stable error code and the details. -/
structure PyError where
  exc : Exc
  message : String
  code : Option String := none
  details : Dict := []
  deriving DecidableEq

/-- What a Python call ends in: a value or an exception. -/
abbrev Py := Except PyError

/-- `except ValueError` catches this exception. -/
def PyError.isValueError (e : PyError) : Bool :=
  match e.exc with
  | .valueError | .unicodeDecodeError | .nativeTransactionValidationError
  | .nativeBlockValidationError | .peerSyncError | .v3Error | .finalityAttestationError => true
  | _ => false

/-- `raise ValueError(message)`. -/
def PyError.value (message : String) : PyError := { exc := .valueError, message }

/-- `raise TypeError(message)`. -/
def PyError.type (message : String) : PyError := { exc := .typeError, message }

/-- `raise AttributeError(message)`. -/
def PyError.attribute (message : String) : PyError := { exc := .attributeError, message }

/-- `if not c: raise e`. -/
def require (c : Prop) [Decidable c] (e : PyError) : Py Unit :=
  if c then .ok () else .error e

/-- The value of an optional, or the exception that is raised without one. -/
def orRaise {α : Type} (x : Option α) (e : PyError) : Py α :=
  match x with
  | some a => .ok a
  | none => .error e

/-- `try: x except ValueError as e: h(e)`. -/
def exceptValueError {α : Type} (x : Py α) (h : PyError → Py α) : Py α :=
  match x with
  | .ok a => .ok a
  | .error e => if e.isValueError then h e else .error e

@[simp] theorem bind_eq_ok {α β : Type} {x : Py α} {f : α → Py β} {b : β} :
    (x >>= f) = .ok b ↔ ∃ a, x = .ok a ∧ f a = .ok b := by
  cases x <;> simp [bind, Except.bind]

@[simp] theorem pure_eq_ok {α : Type} {a b : α} : (pure a : Py α) = .ok b ↔ a = b := by
  simp [pure, Except.pure]

@[simp] theorem throw_ne_ok {α : Type} {e : PyError} {a : α} :
    (throw e : Py α) = .ok a ↔ False := by
  simp [throw, throwThe, MonadExceptOf.throw]

@[simp] theorem require_eq_ok {c : Prop} [Decidable c] {e : PyError} {u : Unit} :
    require c e = .ok u ↔ c := by
  unfold require
  split <;> simp_all

theorem require_pos {c : Prop} [Decidable c] {e : PyError} (h : c) :
    require c e = .ok () := if_pos h

theorem require_neg {c : Prop} [Decidable c] {e : PyError} (h : ¬c) :
    require c e = .error e := if_neg h

@[simp] theorem orRaise_eq_ok {α : Type} {x : Option α} {e : PyError} {a : α} :
    orRaise x e = .ok a ↔ x = some a := by
  cases x <;> simp [orRaise]

@[simp] theorem ok_bind {α β : Type} (a : α) (f : α → Py β) :
    ((Except.ok a : Py α) >>= f) = f a := rfl

/-- A call that is known to return has a value. -/
theorem exists_of_isOk {α : Type} {x : Py α} (hx : x.isOk = true) : ∃ a, x = .ok a := by
  cases x with
  | ok a => exact ⟨a, rfl⟩
  | error _ => cases hx

theorem eq_ok_of_toOption {α : Type} {x : Py α} {a : α} (hx : x.toOption = some a) :
    x = .ok a := by
  cases x with
  | ok b => exact congrArg Except.ok (Option.some.inj hx)
  | error _ => cases hx

@[simp] theorem error_bind {α β : Type} (e : PyError) (f : α → Py β) :
    ((Except.error e : Py α) >>= f) = .error e := rfl

/-- A handler that always raises never turns a failure into a value. -/
theorem exceptValueError_eq_ok {α : Type} {x : Py α} {h : PyError → Py α} {a : α}
    (hh : ∀ e b, h e ≠ .ok b) : exceptValueError x h = .ok a ↔ x = .ok a := by
  cases x with
  | ok b => simp [exceptValueError]
  | error e =>
    by_cases hv : e.isValueError = true
    · simp [exceptValueError, hv, hh]
    · simp [exceptValueError, hv]

/-! ## Dictionaries -/

namespace Dict

/-- The first entry of `key`, which is `d[key]` when there is one. -/
def get? (d : Dict) (key : String) : Option Value :=
  match d with
  | [] => none
  | (k, v) :: rest => if k = key then some v else get? rest key

/-- `d.get(key)`: `None` when the key is missing. -/
def get (d : Dict) (key : String) : Value := (d.get? key).getD .null

/-- `d.get(key, default)`. -/
def getD (d : Dict) (key : String) (default : Value) : Value := (d.get? key).getD default

/-- `d[key]`, which raises `KeyError` when the key is missing. -/
def index (d : Dict) (key : String) : Py Value :=
  match d.get? key with
  | some v => .ok v
  | none => .error { exc := .keyError, message := key }

/-- `d[key] = value`: an existing key keeps its place. -/
def set (d : Dict) (key : String) (value : Value) : Dict :=
  match d with
  | [] => [(key, value)]
  | (k, v) :: rest => if k = key then (k, value) :: rest else (k, v) :: set rest key value

/-- `d.setdefault(key, value)`, for its effect. -/
def setdefault (d : Dict) (key : String) (value : Value) : Dict :=
  match d.get? key with
  | some _ => d
  | none => d.set key value

/-- `{**d, **e}`, also `d.update(e)`. -/
def update (d e : Dict) : Dict := e.foldl (fun acc kv => acc.set kv.1 kv.2) d

/-- The keys in insertion order. -/
def keys (d : Dict) : List String := d.map (·.1)

@[simp] theorem get?_nil (key : String) : get? [] key = none := rfl

theorem get?_cons (k : String) (v : Value) (d : Dict) (key : String) :
    get? ((k, v) :: d) key = if k = key then some v else get? d key := rfl

theorem get_eq (d : Dict) (key : String) : d.get key = (d.get? key).getD .null := rfl

theorem get?_set (d : Dict) (key key' : String) (v : Value) :
    (d.set key v).get? key' = if key = key' then some v else d.get? key' := by
  induction d with
  | nil => simp [set, get?]
  | cons kv d ih =>
    obtain ⟨k, w⟩ := kv
    by_cases hk : k = key
    · subst hk
      by_cases hk' : k = key' <;> simp [set, get?, hk']
    · simp only [set, if_neg hk, get?_cons, ih]
      by_cases hk' : k = key'
      · subst hk'
        simp [Ne.symm hk]
      · simp [hk']

@[simp] theorem get?_set_self (d : Dict) (key : String) (v : Value) :
    (d.set key v).get? key = some v := by simp [get?_set]

theorem get?_set_of_ne {d : Dict} {key key' : String} {v : Value} (h : key ≠ key') :
    (d.set key v).get? key' = d.get? key' := by simp [get?_set, h]

@[simp] theorem get_set_self (d : Dict) (key : String) (v : Value) :
    (d.set key v).get key = v := by simp [get]

theorem get_set_of_ne {d : Dict} {key key' : String} {v : Value} (h : key ≠ key') :
    (d.set key v).get key' = d.get key' := by simp [get, get?_set, h]

theorem get?_setdefault (d : Dict) (key key' : String) (v : Value) :
    (d.setdefault key v).get? key' =
      if key = key' then some ((d.get? key).getD v) else d.get? key' := by
  unfold setdefault
  cases h : d.get? key with
  | none => simp [get?_set]
  | some w =>
    by_cases hk : key = key'
    · subst hk; simp [h]
    · simp [hk]

theorem get?_eq_none {d : Dict} {key : String} : d.get? key = none ↔ key ∉ d.keys := by
  induction d with
  | nil => simp [keys]
  | cons kv d ih =>
    obtain ⟨k, v⟩ := kv
    by_cases hk : k = key
    · simp [get?_cons, keys, hk]
    · simpa [get?_cons, keys, hk, Ne.symm hk] using ih

/-- An update reads the updating `dict` first; of several entries for one key the
last one wins, and a `dict` has one. -/
theorem get?_update (d e : Dict) (key : String) (he : e.keys.Nodup) :
    (d.update e).get? key = (e.get? key).or (d.get? key) := by
  induction e generalizing d with
  | nil => simp [update]
  | cons kv e ih =>
    obtain ⟨k, v⟩ := kv
    obtain ⟨hk, he⟩ : k ∉ keys e ∧ (keys e).Nodup := List.nodup_cons.mp he
    have hupd : update d ((k, v) :: e) = update (d.set k v) e := rfl
    rw [hupd, ih _ he, get?_cons, get?_set]
    by_cases hkk : k = key
    · subst hkk
      simp [get?_eq_none.mpr hk]
    · simp [hkk]

theorem get_update_of_mem {d e : Dict} {key : String} (he : e.keys.Nodup) (hk : key ∈ e.keys) :
    (d.update e).get? key = e.get? key := by
  rw [get?_update d e key he]
  cases h : e.get? key with
  | none => exact absurd hk (get?_eq_none.mp h)
  | some v => rfl

theorem get_congr {d e : Dict} {key : String} (h : d.get? key = e.get? key) :
    d.get key = e.get key := by rw [get, get, h]

end Dict

/-! ## Truth value, equality, hashing -/

/-- `bool(v)`. -/
def Value.truthy : Value → Bool
  | .null => false
  | .bool b => b
  | .int n => n != 0
  | .float (.finite x) => x.value != 0
  | .float _ => true
  | .str s => s != ""
  | .bytes b => b != []
  | .list xs => !xs.isEmpty
  | .dict es => !es.isEmpty

/-- `v or w`. -/
def Value.orElse (v w : Value) : Value := if v.truthy then v else w

/-- `v is None` (`.null` stands for `None`). -/
def Value.isNone : Value → Bool
  | .null => true
  | _ => false

@[simp] theorem Value.isNone_iff {v : Value} : v.isNone = true ↔ v = .null := by
  cases v <;> simp [Value.isNone]

/-- The exact value of a finite number (`bool` and `int` are numbers too). -/
def Value.number? : Value → Option Rat
  | .bool b => some (if b then 1 else 0)
  | .int n => some n
  | .float (.finite x) => some x.value
  | _ => none

mutual

/-- Python's `==`. Numbers of different types compare by value, `nan` differs from
itself, and two `dict`s are equal when they have the same keys with equal values. -/
def Value.pyEq : Value → Value → Bool
  | .null, .null => true
  | .bool a, b => some (if a then (1 : Rat) else 0) == b.number?
  | .int a, b => some (a : Rat) == b.number?
  | .float (.finite a), b => some a.value == b.number?
  | .float (.inf a), .float (.inf b) => a == b
  | .str a, .str b => a == b
  | .bytes a, .bytes b => a == b
  | .list a, .list b => Value.pyEqList a b
  | .dict a, .dict b => a.length == b.length && Value.pyEqDict a b
  | _, _ => false

/-- `==` of two lists, item by item. -/
def Value.pyEqList : List Value → List Value → Bool
  | [], [] => true
  | a :: as, b :: bs => Value.pyEq a b && Value.pyEqList as bs
  | _, _ => false

/-- Every entry of the first `dict` has an equal value in the second. -/
def Value.pyEqDict : List (String × Value) → Dict → Bool
  | [], _ => true
  | (k, a) :: as, d =>
    (match d.get? k with
      | some b => Value.pyEq a b
      | none => false) && Value.pyEqDict as d

end

/-- What a hashable value is compared by in a `set` or as a `dict` key: equal
numbers of different types are one key. -/
inductive HashKey where
  | none
  | number (q : Rat)
  | inf (neg : Bool)
  | nan
  | str (s : String)
  | bytes (b : List UInt8)
  deriving DecidableEq

/-- The key of a value; `list` and `dict` are unhashable. -/
def Value.hashKey : Value → Py HashKey
  | .null => .ok .none
  | .bool b => .ok (.number (if b then 1 else 0))
  | .int n => .ok (.number n)
  | .float (.finite x) => .ok (.number x.value)
  | .float (.inf neg) => .ok (.inf neg)
  | .float .nan => .ok .nan
  | .str s => .ok (.str s)
  | .bytes b => .ok (.bytes b)
  | .list _ => .error (.type "unhashable type: 'list'")
  | .dict _ => .error (.type "unhashable type: 'dict'")

/-- `iter(v)`: a `dict` yields its keys, a `str` its characters. -/
def Value.iter : Value → Py (List Value)
  | .list xs => .ok xs
  | .dict es => .ok (es.map fun e => .str e.1)
  | .str s => .ok (s.toList.map fun c => .str (String.singleton c))
  | .bytes b => .ok (b.map fun x => .int x.toNat)
  | _ => .error (.type "object is not iterable")

/-- `list(v or [])`. -/
def Value.listOrEmpty (v : Value) : Py (List Value) :=
  if v.truthy then v.iter else .ok []

/-- The entries of a `dict`; any other value has no method `get`. -/
def Value.asDict : Value → Py Dict
  | .dict es => .ok es
  | _ => .error { exc := .attributeError, message := "object has no attribute 'get'" }

/-- `v[key]` for a text key: only a `dict` has such items. -/
def Value.item (v : Value) (key : String) : Py Value :=
  match v with
  | .dict es => Dict.index es key
  | _ => .error (.type "object is not subscriptable by a string")

/-- `type(v) is int and low <= v <= high`, or the exception `e`. -/
def Value.intIn (v : Value) (low high : Int) (e : PyError) : Py Int :=
  match v with
  | .int n => if low ≤ n ∧ n ≤ high then .ok n else .error e
  | _ => .error e

@[simp] theorem Value.intIn_eq_ok {v : Value} {low high n : Int} {e : PyError} :
    v.intIn low high e = .ok n ↔ v = .int n ∧ low ≤ n ∧ n ≤ high := by
  cases v with
  | int m =>
    by_cases h : low ≤ m ∧ m ≤ high
    · simp only [Value.intIn, if_pos h, Except.ok.injEq, Value.int.injEq]
      exact ⟨fun hm => ⟨hm, hm ▸ h⟩, fun hm => hm.1⟩
    · simp only [Value.intIn, if_neg h, Value.int.injEq, reduceCtorEq, false_iff]
      rintro ⟨rfl, hm⟩
      exact h hm
  | _ => simp [Value.intIn]

@[simp] theorem Value.orElse_of_truthy {v w : Value} (h : v.truthy = true) :
    v.orElse w = v := if_pos h

@[simp] theorem Value.truthy_null : Value.truthy .null = false := rfl

@[simp] theorem Value.truthy_str (s : String) : Value.truthy (.str s) = (s != "") := rfl

theorem Value.pyEq_str {v : Value} {s : String} : Value.pyEq v (.str s) = true ↔ v = .str s := by
  cases v with
  | float f => cases f <;> simp [Value.pyEq, Value.number?]
  | _ => simp [Value.pyEq, Value.number?]

theorem Value.pyEq_int {v : Value} {n : Int} :
    Value.pyEq v (.int n) = true ↔ v.number? = some (n : Rat) := by
  cases v with
  | float f => cases f <;> simp [Value.pyEq, Value.number?]
  | _ => simp [Value.pyEq, Value.number?]

theorem Value.pyEq_dict {v : Value} {d : Dict} :
    Value.pyEq v (.dict d) = true ↔
      ∃ es, v = .dict es ∧ es.length = d.length ∧ Value.pyEqDict es d = true := by
  cases v with
  | float f => cases f <;> simp [Value.pyEq, Value.number?]
  | _ => simp [Value.pyEq, Value.number?]

theorem Value.pyEqDict_get? {es d : Dict} {key : String} {w : Value}
    (h : Value.pyEqDict es d = true) (hw : es.get? key = some w) :
    ∃ u, d.get? key = some u ∧ w.pyEq u = true := by
  induction es with
  | nil => cases hw
  | cons e es ih =>
    obtain ⟨k, a⟩ := e
    simp only [Value.pyEqDict, Bool.and_eq_true] at h
    obtain ⟨hhead, htail⟩ := h
    rw [Dict.get?_cons] at hw
    split at hw
    · next hk =>
      subst hk
      obtain rfl := Option.some.inj hw
      cases hu : d.get? k with
      | none => simp [hu] at hhead
      | some u => exact ⟨u, rfl, by simpa [hu] using hhead⟩
    · exact ih htail hw

/-- An item of a value that equals a `dict` equals the item of that `dict`. -/
theorem Value.item_of_pyEq {v w : Value} {d : Dict} {key : String}
    (h : Value.pyEq v (.dict d) = true) (hw : v.item key = .ok w) :
    ∃ u, d.get? key = some u ∧ w.pyEq u = true := by
  obtain ⟨es, rfl, -, hes⟩ := Value.pyEq_dict.mp h
  cases hget : Dict.get? es key with
  | none => simp [Value.item, Dict.index, hget] at hw
  | some a =>
    obtain rfl : a = w := by simpa [Value.item, Dict.index, hget] using hw
    exact Value.pyEqDict_get? hes hget

/-! ## The runtime -/

/-- The runtime: Unicode lower-casing and `repr`, with what is fixed about them. -/
structure Runtime where
  /-- `s.lower()`. -/
  lower : String → String
  /-- On ASCII text lower-casing is the ASCII one. -/
  lower_ascii : ∀ s : String, (∀ c ∈ s.toList, c.toNat < 128) → lower s = s.toLower
  /-- Lower-casing neither makes nor removes white space. -/
  strip_lower : ∀ s : String, strip (lower s) = lower (strip s)
  /-- A lower-cased text stays as it is. -/
  lower_lower : ∀ s : String, lower (lower s) = lower s
  /-- `repr(v)`, which is also `str(v)` of a `bytes`, a `list` or a `dict`. -/
  repr : Value → String

/-- The runtime that lower-cases ASCII only. -/
def asciiRuntime : Runtime where
  lower := String.toLower
  lower_ascii _ _ := rfl
  strip_lower := strip_toLower
  lower_lower := lower_toLower
  repr _ := ""

/-- `str(v)`. -/
def Value.text (rt : Runtime) : Value → String
  | .null => "None"
  | .bool b => if b then "True" else "False"
  | .int n => toString n
  | .float f => f.text
  | .str s => s
  | v => rt.repr v

/-- `str(v or "").strip()`. -/
def Value.trimmed (rt : Runtime) (v : Value) : String :=
  strip (if v.truthy then v.text rt else "")

@[simp] theorem Value.trimmed_str (rt : Runtime) (s : String) :
    Value.trimmed rt (.str s) = strip s := by
  by_cases h : s = ""
  · subst h; rfl
  · simp [Value.trimmed, Value.text, h]

theorem Value.strip_trimmed (rt : Runtime) (v : Value) : strip (v.trimmed rt) = v.trimmed rt :=
  strip_strip _

end Python
