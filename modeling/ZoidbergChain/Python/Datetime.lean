import Mathlib

/-!
# Instants in UTC

An aware `datetime` in UTC is the number of microseconds since `datetime.min`, below the
end of the year 9999. `isoformat` writes it as the standard library does, which leaves the
fraction out when it is zero.

The text orders as the instants do (`isoformat_strictMono`): every field has a fixed width,
and `+` of the offset comes before `.` of a fraction.
-/

namespace Python

/-! ## Decimals of a fixed width -/

/-- `f"{n:0{width}d}"` for a number of at most `width` digits. -/
def padded : Nat → Nat → List Char
  | 0, _ => []
  | width + 1, n => Nat.digitChar (n / 10 ^ width % 10) :: padded width n

theorem digitChar_lt {a b : Nat} (hb : b < 10) (h : a < b) :
    Nat.digitChar a < Nat.digitChar b := by
  have hall : ∀ y < 10, ∀ x < y, Nat.digitChar x < Nat.digitChar y := by decide
  exact hall b hb a h

theorem padded_congr {width a b : Nat} (h : a % 10 ^ width = b % 10 ^ width) :
    padded width a = padded width b := by
  induction width with
  | zero => rfl
  | succ width ih =>
    rw [Nat.mod_pow_succ, Nat.mod_pow_succ] at h
    have hpos : 0 < 10 ^ width := Nat.pow_pos (by decide)
    have hlow : a % 10 ^ width = b % 10 ^ width := by
      have := congrArg (· % 10 ^ width) h
      simpa using this
    have hhigh : a / 10 ^ width % 10 = b / 10 ^ width % 10 := by
      rw [hlow] at h
      exact Nat.eq_of_mul_eq_mul_left hpos (Nat.add_left_cancel h)
    rw [padded, padded, hhigh, ih hlow]

/-- The first differing field decides, whatever follows it. -/
theorem padded_mod_lt {width a b : Nat} {xs ys : List Char}
    (h : a % 10 ^ width < b % 10 ^ width) : padded width a ++ xs < padded width b ++ ys := by
  induction width with
  | zero => simp [Nat.mod_one] at h
  | succ width ih =>
    rw [Nat.mod_pow_succ, Nat.mod_pow_succ] at h
    show Nat.digitChar _ :: (padded width a ++ xs) < Nat.digitChar _ :: (padded width b ++ ys)
    rw [List.cons_lt_cons_iff]
    obtain hlt | heq | hgt := Nat.lt_trichotomy (a / 10 ^ width % 10) (b / 10 ^ width % 10)
    · exact Or.inl (digitChar_lt (Nat.mod_lt _ (by decide)) hlt)
    · rw [heq] at h
      exact Or.inr ⟨by rw [heq], ih (Nat.lt_of_add_lt_add_right h)⟩
    · exfalso
      have ha : a % 10 ^ width < 10 ^ width := Nat.mod_lt _ (Nat.pow_pos (by decide))
      have hb : b % 10 ^ width < 10 ^ width := Nat.mod_lt _ (Nat.pow_pos (by decide))
      have hmul : 10 ^ width * (b / 10 ^ width % 10 + 1) ≤ 10 ^ width * (a / 10 ^ width % 10) :=
        Nat.mul_le_mul_left _ hgt
      rw [Nat.mul_add, Nat.mul_one] at hmul
      omega

/-- Two texts that begin with a field of one width. -/
theorem padded_lt {width a b : Nat} {xs ys : List Char} (ha : a < 10 ^ width)
    (hb : b < 10 ^ width) (hle : a ≤ b) (h : a = b → xs < ys) :
    padded width a ++ xs < padded width b ++ ys := by
  obtain hlt | rfl := Nat.lt_or_eq_of_le hle
  · exact padded_mod_lt (by rwa [Nat.mod_eq_of_lt ha, Nat.mod_eq_of_lt hb])
  · exact List.append_left_lt (h rfl)

/-! ## Places

A number falls into the last place that starts at or before it: years and months are
places among the days. -/

/-- The greatest `i ≤ bound` with `start i ≤ n`. -/
def place (start : Nat → Nat) (bound n : Nat) : Nat :=
  Nat.findGreatest (fun i => start i ≤ n) bound

theorem place_le (start : Nat → Nat) (bound n : Nat) : place start bound n ≤ bound :=
  Nat.findGreatest_le bound

theorem place_mono (start : Nat → Nat) (bound : Nat) {n n' : Nat} (h : n ≤ n') :
    place start bound n ≤ place start bound n' :=
  Nat.findGreatest_mono_left (fun _ hi => Nat.le_trans hi h) bound

theorem start_place_le {start : Nat → Nat} {bound : Nat} (h0 : start 0 = 0) (n : Nat) :
    start (place start bound n) ≤ n :=
  Nat.findGreatest_spec (P := fun i => start i ≤ n) (Nat.zero_le bound)
    (Nat.le_trans (Nat.le_of_eq h0) (Nat.zero_le n))

theorem lt_start_place_succ {start : Nat → Nat} {bound n : Nat}
    (h : place start bound n < bound) : n < start (place start bound n + 1) :=
  Nat.lt_of_not_le (Nat.findGreatest_is_greatest (P := fun i => start i ≤ n) (Nat.lt_succ_self _) h)

/-! ## The calendar -/

/-- `calendar.isleap(year)`. -/
def isLeap (year : Nat) : Bool := year % 4 == 0 && (year % 100 != 0 || year % 400 == 0)

/-- The days from 0001-01-01 to the start of the year. -/
def daysBeforeYear (year : Nat) : Nat :=
  (year - 1) * 365 + (year - 1) / 4 - (year - 1) / 100 + (year - 1) / 400

/-- The days of a common year before the month. -/
def commonDaysBeforeMonth (month : Nat) : Nat :=
  [0, 0, 31, 59, 90, 120, 151, 181, 212, 243, 273, 304, 334].getD month 365

/-- The days of the year before the month. -/
def daysBeforeMonth (year month : Nat) : Nat :=
  commonDaysBeforeMonth month + if 2 < month ∧ isLeap year then 1 else 0

/-- The microseconds of a day. -/
def dayMicros : Nat := 86400000000

/-- An aware `datetime` in UTC. -/
structure Instant where
  /-- The microseconds since 0001-01-01T00:00:00. -/
  micros : Nat
  representable : micros < daysBeforeYear 10000 * dayMicros
  deriving DecidableEq

namespace Instant

@[ext] theorem ext {a b : Instant} (h : a.micros = b.micros) : a = b := by
  cases a
  cases b
  cases h
  rfl

instance : LinearOrder Instant :=
  LinearOrder.lift' micros fun _ _ => ext

theorem lt_iff {a b : Instant} : a < b ↔ a.micros < b.micros := Iff.rfl

theorem le_iff {a b : Instant} : a ≤ b ↔ a.micros ≤ b.micros := Iff.rfl

def day (a : Instant) : Nat := a.micros / dayMicros

def year (a : Instant) : Nat := place daysBeforeYear 9999 a.day

def dayOfYear (a : Instant) : Nat := a.day - daysBeforeYear a.year

def month (a : Instant) : Nat := place (daysBeforeMonth a.year) 12 a.dayOfYear

def dayOfMonth (a : Instant) : Nat := a.dayOfYear - daysBeforeMonth a.year a.month + 1

def time (a : Instant) : Nat := a.micros % dayMicros

def hour (a : Instant) : Nat := a.time / 3600000000

def minute (a : Instant) : Nat := a.time / 60000000 % 60

def second (a : Instant) : Nat := a.time / 1000000 % 60

def microsecond (a : Instant) : Nat := a.time % 1000000

/-- The fraction of a second, absent when it is zero. -/
def fraction (microsecond : Nat) : List Char :=
  if microsecond = 0 then [] else '.' :: padded 6 microsecond

/-- `value.isoformat()`. -/
def isoformat (a : Instant) : String := String.ofList
  (padded 4 a.year ++ '-' :: (padded 2 a.month ++ '-' :: (padded 2 a.dayOfMonth ++
    'T' :: (padded 2 a.hour ++ ':' :: (padded 2 a.minute ++ ':' :: (padded 2 a.second ++
      (fraction a.microsecond ++ ['+', '0', '0', ':', '0', '0'])))))))

/-- `value + timedelta(seconds=seconds)`; past the year 9999 it overflows. -/
def addSeconds (a : Instant) (seconds : Nat) : Option Instant :=
  if h : a.micros + seconds * 1000000 < daysBeforeYear 10000 * dayMicros then
    some { micros := a.micros + seconds * 1000000, representable := h }
  else none

/-! ## The order of the texts -/

theorem fraction_lt {m n : Nat} {xs : List Char} (hn : n < 1000000) (h : m < n) :
    fraction m ++ '+' :: xs < fraction n ++ '+' :: xs := by
  have hn0 : n ≠ 0 := by omega
  by_cases hm : m = 0
  · -- no fraction against one: `+` against `.`
    rw [fraction, fraction, if_pos hm, if_neg hn0]
    show '+' :: xs < '.' :: _
    rw [List.cons_lt_cons_iff]
    exact Or.inl (by decide)
  · rw [fraction, fraction, if_neg hm, if_neg hn0]
    show '.' :: (padded 6 m ++ '+' :: xs) < '.' :: (padded 6 n ++ '+' :: xs)
    rw [List.cons_lt_cons_iff]
    exact Or.inr ⟨rfl, padded_lt (by omega) (by omega) (by omega) (by omega)⟩

theorem separated_lt {width a b : Nat} {c : Char} {xs ys : List Char} (ha : a < 10 ^ width)
    (hb : b < 10 ^ width) (hle : a ≤ b) (h : a = b → xs < ys) :
    padded width a ++ c :: xs < padded width b ++ c :: ys :=
  padded_lt ha hb hle fun heq => List.cons_lt_cons_iff.mpr (Or.inr ⟨rfl, h heq⟩)

theorem year_lt (a : Instant) : a.year < 10 ^ 4 :=
  Nat.lt_of_le_of_lt (place_le ..) (by decide)

theorem month_lt (a : Instant) : a.month < 10 ^ 2 :=
  Nat.lt_of_le_of_lt (place_le ..) (by decide)

theorem daysBeforeYear_year_le (a : Instant) : daysBeforeYear a.year ≤ a.day :=
  start_place_le (by decide) _

theorem daysBeforeMonth_month_le (a : Instant) : daysBeforeMonth a.year a.month ≤ a.dayOfYear :=
  start_place_le (by simp [daysBeforeMonth, commonDaysBeforeMonth]) _

/-- The day lies before the start of the next year. -/
theorem day_lt (a : Instant) : a.day < daysBeforeYear (a.year + 1) := by
  by_cases h : a.year < 9999
  · exact lt_start_place_succ h
  · have hyear : a.year = 9999 := Nat.le_antisymm (place_le ..) (Nat.le_of_not_lt h)
    rw [hyear]
    exact Nat.div_lt_of_lt_mul (by rw [Nat.mul_comm]; exact a.representable)

theorem daysBeforeYear_succ_le (y : Nat) : daysBeforeYear (y + 1) ≤ daysBeforeYear y + 366 := by
  unfold daysBeforeYear
  omega

theorem dayOfMonth_lt (a : Instant) : a.dayOfMonth < 10 ^ 2 := by
  have hday := a.day_lt
  have hyear := daysBeforeYear_succ_le a.year
  have hlow := a.daysBeforeYear_year_le
  have hof : a.dayOfYear < 366 := by
    unfold dayOfYear
    omega
  have hnext : a.dayOfYear < daysBeforeMonth a.year a.month + 60 := by
    by_cases h : a.month < 12
    · have hlt : a.dayOfYear < daysBeforeMonth a.year (a.month + 1) := lt_start_place_succ h
      have hall : ∀ m < 12, commonDaysBeforeMonth (m + 1) ≤ commonDaysBeforeMonth m + 31 := by
        decide
      have hm := hall _ h
      unfold daysBeforeMonth at hlt ⊢
      split at hlt <;> split <;> omega
    · have hmonth : a.month = 12 := Nat.le_antisymm (place_le ..) (Nat.le_of_not_lt h)
      have h12 : 334 ≤ daysBeforeMonth a.year a.month := by
        rw [hmonth]
        exact Nat.le_add_right ..
      omega
  unfold dayOfMonth
  omega

/-- The texts of two instants of one day compare as their times do. -/
theorem clock_lt {a b : Instant} {c : List Char} (h : a.time < b.time) :
    padded 2 a.hour ++ ':' :: (padded 2 a.minute ++ ':' :: (padded 2 a.second ++
      (fraction a.microsecond ++ '+' :: c))) <
    padded 2 b.hour ++ ':' :: (padded 2 b.minute ++ ':' :: (padded 2 b.second ++
      (fraction b.microsecond ++ '+' :: c))) := by
  have ha : a.time < 86400000000 := Nat.mod_lt _ (by decide)
  have hb : b.time < 86400000000 := Nat.mod_lt _ (by decide)
  unfold hour minute second microsecond
  generalize a.time = s at *
  generalize b.time = t at *
  refine separated_lt (by omega) (by omega) (by omega) fun hhour => ?_
  refine separated_lt (by omega) (by omega) (by omega) fun hminute => ?_
  refine padded_lt (by omega) (by omega) (by omega) fun hsecond => ?_
  exact fraction_lt (by omega) (by omega)

/-- A later instant has the greater text. -/
theorem isoformat_strictMono : StrictMono isoformat := by
  intro a b hab
  have hab : a.micros < b.micros := hab
  have hday : a.day ≤ b.day := Nat.div_le_div_right (Nat.le_of_lt hab)
  show String.toList (String.ofList _) < String.toList (String.ofList _)
  rw [String.toList_ofList, String.toList_ofList]
  refine separated_lt a.year_lt b.year_lt (place_mono _ _ hday) fun hyear => ?_
  have hof : a.dayOfYear ≤ b.dayOfYear := by
    unfold dayOfYear
    rw [hyear]
    exact Nat.sub_le_sub_right hday _
  refine separated_lt a.month_lt b.month_lt
    (by unfold month; rw [hyear]; exact place_mono _ _ hof) fun hmonth => ?_
  refine separated_lt a.dayOfMonth_lt b.dayOfMonth_lt
    (by unfold dayOfMonth; rw [hyear, hmonth]; omega) fun hdate => ?_
  -- the same date: the days are equal and the times differ
  have hsame : a.day = b.day := by
    have hya := a.daysBeforeYear_year_le
    have hyb := b.daysBeforeYear_year_le
    have hma := a.daysBeforeMonth_month_le
    have hmb := b.daysBeforeMonth_month_le
    unfold dayOfMonth at hdate
    rw [hyear] at hya hma hdate
    rw [hmonth] at hma hdate
    unfold dayOfYear at *
    rw [hyear] at *
    omega
  refine clock_lt ?_
  have hma := Nat.div_add_mod a.micros dayMicros
  have hmb := Nat.div_add_mod b.micros dayMicros
  unfold day at hsame
  unfold time
  rw [hsame] at hma
  omega

/-- `a.isoformat() <= b.isoformat()` compares the instants. -/
theorem isoformat_le {a b : Instant} : a.isoformat ≤ b.isoformat ↔ a ≤ b :=
  isoformat_strictMono.le_iff_le

end Instant

end Python
