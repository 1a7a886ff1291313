/-!
# Instants

An instant is a date of the proleptic Gregorian calendar and a time of day in UTC with
nanoseconds.  A leap second is the second before it with a nanosecond count of a thousand million
or more.  Instants are ordered field by field (`Instant.key`).
-/

namespace CatalogChain

namespace Instant

/-- Whether a year has a twenty-ninth of February. -/
def isLeap (year : Int) : Bool :=
  year % 4 = 0 && (year % 100 ≠ 0 || year % 400 = 0)

/-- The number of days in a month. -/
def daysIn (year : Int) (month : Nat) : Nat :=
  if month = 2 then if isLeap year then 29 else 28
  else if month = 4 ∨ month = 6 ∨ month = 9 ∨ month = 11 then 30
  else 31

/-- The fields of a date within the range of the calendar. -/
structure ValidDate (year : Int) (month day : Nat) : Prop where
  year_ge : -262143 ≤ year
  year_le : year ≤ 262142
  month_pos : 1 ≤ month
  month_le : month ≤ 12
  day_pos : 1 ≤ day
  day_le : day ≤ daysIn year month

/-- The number of nanoseconds in a second. -/
def nanosPerSecond : Nat := 1000000000

/-- The fields of a time of day. -/
structure ValidTime (hour minute second nano : Nat) : Prop where
  hour_lt : hour < 24
  minute_lt : minute < 60
  second_lt : second < 60
  nano_lt : nano < nanosPerSecond ∨ (second = 59 ∧ nano < 2 * nanosPerSecond)

instance (year : Int) (month day : Nat) : Decidable (ValidDate year month day) :=
  decidable_of_iff
    (-262143 ≤ year ∧ year ≤ 262142 ∧ 1 ≤ month ∧ month ≤ 12 ∧ 1 ≤ day ∧ day ≤ daysIn year month)
    ⟨fun ⟨a, b, c, d, e, f⟩ => ⟨a, b, c, d, e, f⟩, fun ⟨a, b, c, d, e, f⟩ => ⟨a, b, c, d, e, f⟩⟩

instance (hour minute second nano : Nat) : Decidable (ValidTime hour minute second nano) :=
  decidable_of_iff
    (hour < 24 ∧ minute < 60 ∧ second < 60 ∧
      (nano < nanosPerSecond ∨ (second = 59 ∧ nano < 2 * nanosPerSecond)))
    ⟨fun ⟨a, b, c, d⟩ => ⟨a, b, c, d⟩, fun ⟨a, b, c, d⟩ => ⟨a, b, c, d⟩⟩

end Instant

/-- **An instant** in UTC, field by field. -/
structure Instant where
  year : Int
  month : Nat
  day : Nat
  hour : Nat
  minute : Nat
  second : Nat
  nano : Nat
  validDate : Instant.ValidDate year month day
  validTime : Instant.ValidTime hour minute second nano
deriving DecidableEq

namespace Instant

/-- The beginning of the year 1970, which stands for an instant that is not given. -/
def epoch : Instant := ⟨1970, 1, 1, 0, 0, 0, 0, by decide, by decide⟩

instance : Inhabited Instant := ⟨epoch⟩

/-- The instant of given fields, if they are valid. -/
def ofFields? (year : Int) (month day hour minute second nano : Nat) : Option Instant :=
  if h : ValidDate year month day ∧ ValidTime hour minute second nano then
    some ⟨year, month, day, hour, minute, second, nano, h.1, h.2⟩
  else none

theorem ofFields?_self (t : Instant) :
    ofFields? t.year t.month t.day t.hour t.minute t.second t.nano = some t := by
  simp [ofFields?, t.validDate, t.validTime]

/-! ## Order -/

/-- The fields from the year down to the nanosecond. -/
def key (t : Instant) : List Int :=
  [t.year, t.month, t.day, t.hour, t.minute, t.second, t.nano]

/-- An instant is earlier if the first field in which it differs is less. -/
instance : LT Instant := ⟨fun s t => s.key < t.key⟩

instance (s t : Instant) : Decidable (s < t) := inferInstanceAs (Decidable (s.key < t.key))

theorem lt_iff {s t : Instant} : s < t ↔ s.key < t.key := Iff.rfl

/-! ## Offsets -/

/-- The day after a date. -/
def nextDay (year : Int) (month day : Nat) : Int × Nat × Nat :=
  if day < daysIn year month then (year, month, day + 1)
  else if month < 12 then (year, month + 1, 1)
  else (year + 1, 1, 1)

/-- The day before a date. -/
def previousDay (year : Int) (month day : Nat) : Int × Nat × Nat :=
  if 1 < day then (year, month, day - 1)
  else if 1 < month then (year, month - 1, daysIn year (month - 1))
  else (year - 1, 12, 31)

/-- **The instant of a local date and time** that is `offset` minutes, less than a day, ahead of
UTC. -/
def ofLocal? (offset : Int) (year : Int) (month day hour minute second nano : Nat) :
    Option Instant :=
  if ¬ ValidDate year month day then none
  else
    let minutes : Int := 60 * hour + minute - offset
    let (year, month, day) :=
      if minutes < 0 then previousDay year month day
      else if 1440 ≤ minutes then nextDay year month day
      else (year, month, day)
    let minutes := (minutes % 1440).toNat
    ofFields? year month day (minutes / 60) (minutes % 60) second nano

theorem ofLocal?_zero (t : Instant) :
    ofLocal? 0 t.year t.month t.day t.hour t.minute t.second t.nano = some t := by
  have hh := t.validTime.hour_lt
  have hm := t.validTime.minute_lt
  have h1 : ¬ ((60 * t.hour + t.minute - 0 : Int) < 0) := by omega
  have h2 : ¬ ((1440 : Int) ≤ 60 * t.hour + t.minute - 0) := by omega
  have h3 : ((60 * t.hour + t.minute - 0 : Int) % 1440).toNat / 60 = t.hour := by omega
  have h4 : ((60 * t.hour + t.minute - 0 : Int) % 1440).toNat % 60 = t.minute := by omega
  simp only [ofLocal?, t.validDate, not_true, if_false, h1, h2, h3, h4]
  exact ofFields?_self t

end Instant

end CatalogChain
