import CompressorBench.Decimal.Binary64
import CompressorBench.Decimal.Rounding

/-!
# Durations

A duration is a whole number of nanoseconds, with fewer than `2 ^ 64` seconds. Two durations may add
up to more than that, and then there is no sum. A number of seconds is rounded to the nearest
nanosecond, a half to the even neighbour.

Times that were measured are much shorter: the seconds of a clock are counted in 63 bits, so any two
of them add up.
-/

namespace CompressorBench

/-! ## Durations -/

/-- From `2 ^ 64` seconds on a duration is too long. -/
def Duration.limitSeconds : Nat := 18446744073709551616

/-- The first number of nanoseconds that no duration has. -/
def Duration.limitNanoseconds : Nat := limitSeconds * 1000000000

/-- A span of time in nanoseconds. -/
structure Duration where
  nanoseconds : Nat
  isShort : nanoseconds < Duration.limitNanoseconds
deriving DecidableEq, Repr

namespace Duration

/-- No time at all. -/
def zero : Duration := ⟨0, by decide⟩

instance : Inhabited Duration := ⟨zero⟩

/-- The longest duration. -/
def longest : Duration := ⟨limitNanoseconds - 1, by decide⟩

/-- A duration of nanoseconds, if they are not too many. -/
def ofNanoseconds? (n : Nat) : Option Duration :=
  if h : n < limitNanoseconds then some ⟨n, h⟩ else none

/-- The sum of two durations, if it is not too long. -/
def add? (a b : Duration) : Option Duration := ofNanoseconds? (a.nanoseconds + b.nanoseconds)

theorem eq_of_nanoseconds {a b : Duration} (h : a.nanoseconds = b.nanoseconds) : a = b := by
  obtain ⟨n, _⟩ := a
  cases h
  rfl

theorem ofNanoseconds?_eq_some_iff {n : Nat} {d : Duration} :
    ofNanoseconds? n = some d ↔ d.nanoseconds = n := by
  unfold ofNanoseconds?
  split
  · next h =>
    rw [Option.some.injEq]
    exact ⟨fun heq => heq ▸ rfl, fun heq => eq_of_nanoseconds heq.symm⟩
  · next h => exact ⟨nofun, fun heq => absurd (heq ▸ d.isShort) h⟩

theorem ofNanoseconds?_eq_none_iff {n : Nat} :
    ofNanoseconds? n = none ↔ limitNanoseconds ≤ n := by
  unfold ofNanoseconds?
  split
  · next h => exact ⟨nofun, fun hle => absurd h (Nat.not_lt.mpr hle)⟩
  · next h => exact ⟨fun _ => Nat.not_lt.mp h, fun _ => rfl⟩

theorem add?_eq_some_iff {a b sum : Duration} :
    a.add? b = some sum ↔ sum.nanoseconds = a.nanoseconds + b.nanoseconds :=
  ofNanoseconds?_eq_some_iff

theorem add?_eq_none_iff {a b : Duration} :
    a.add? b = none ↔ limitNanoseconds ≤ a.nanoseconds + b.nanoseconds :=
  ofNanoseconds?_eq_none_iff

/-- No time adds nothing. -/
@[simp] theorem add?_zero (a : Duration) : a.add? zero = some a := add?_eq_some_iff.mpr rfl

@[simp] theorem zero_add? (a : Duration) : zero.add? a = some a :=
  add?_eq_some_iff.mpr (Nat.zero_add _).symm

/-- A duration of nanoseconds, the longest one if they are too many. -/
def ofNanoseconds (n : Nat) : Duration := (ofNanoseconds? n).getD longest

/-- A duration of whole seconds and nanoseconds. -/
def ofSeconds (seconds nanoseconds : Nat) : Duration :=
  ofNanoseconds (seconds * 1000000000 + nanoseconds)

/-- A duration of whole milliseconds. -/
def ofMilliseconds (n : Nat) : Duration := ofNanoseconds (n * 1000000)

/-- A duration of whole microseconds. -/
def ofMicroseconds (n : Nat) : Duration := ofNanoseconds (n * 1000)

/-- The whole milliseconds of a duration. -/
def milliseconds (d : Duration) : Nat := d.nanoseconds / 1000000

/-- The whole seconds of a duration. -/
def seconds (d : Duration) : Nat := d.nanoseconds / 1000000000

/-- The nanoseconds beyond the whole seconds. -/
def subsecondNanoseconds (d : Duration) : Nat := d.nanoseconds % 1000000000

/-- The nanoseconds in `mantissa * 2 ^ exponent` seconds, if they are not too many. -/
def ofBinarySeconds? (mantissa : Nat) (exponent : Int) : Option Duration :=
  let fraction := Decimal.scaleByTwo mantissa exponent
  ofNanoseconds? (Decimal.roundDiv (fraction.1 * 1000000000) fraction.2)

example : ofBinarySeconds? 1 (-1) = some (ofMilliseconds 500) := by decide +kernel
example : ofBinarySeconds? 1 (-40) = some zero := by decide +kernel
example : longest.add? zero = some longest := by decide +kernel
example : longest.add? longest = none := by decide +kernel

end Duration

/-! ## Clocks -/

/-- The first number of nanoseconds that no clock shows, `2 ^ 63` seconds. -/
def ClockTime.limitNanoseconds : Nat := 9223372036854775808 * 1000000000

/-- A time that a clock can have shown. -/
structure ClockTime where
  duration : Duration
  isShown : duration.nanoseconds < ClockTime.limitNanoseconds
deriving DecidableEq, Repr

namespace ClockTime

/-- The time at which a clock starts. -/
def start : ClockTime := ⟨.zero, by decide⟩

/-- The last time that a clock shows. -/
def last : ClockTime := ⟨⟨limitNanoseconds - 1, by decide⟩, by decide⟩

/-- What a clock shows after a duration, or the last time that it shows. -/
def after (d : Duration) : ClockTime :=
  if h : d.nanoseconds < limitNanoseconds then ⟨d, h⟩ else last

/-- The later one of two times. -/
def later (a b : ClockTime) : ClockTime :=
  if a.duration.nanoseconds ≤ b.duration.nanoseconds then b else a

/-- The later one of two times, if both come. -/
def later? : Option ClockTime → Option ClockTime → Option ClockTime
  | some a, some b => some (later a b)
  | _, _ => none

/-- Something is over before a limit. -/
def IsWithin (limit : Duration) (time? : Option ClockTime) : Prop :=
  ∃ time, time? = some time ∧ time.duration.nanoseconds < limit.nanoseconds

/-- The later one of two times is within a limit if both are. -/
theorem isWithin_later? {limit : Duration} {a b : Option ClockTime} :
    IsWithin limit (later? a b) ↔ IsWithin limit a ∧ IsWithin limit b := by
  cases a with
  | none => simp [later?, IsWithin]
  | some a =>
    cases b with
    | none => simp [later?, IsWithin]
    | some b =>
      simp only [later?, IsWithin, Option.some.injEq, exists_eq_left', later]
      split <;> omega

theorem two_mul_limitNanoseconds_le :
    2 * limitNanoseconds ≤ Duration.limitNanoseconds := by decide

end ClockTime

end CompressorBench
