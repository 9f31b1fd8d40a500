/-!
Granularity of stored times. Times are signed nanoseconds from the start of 1970,
UTC.
-/

namespace RamFs

abbrev Time := Int

inductive Resolution where
  | nanoseconds
  | microseconds
  | milliseconds
  | seconds
  deriving DecidableEq, Repr

namespace Resolution

/-- Nanoseconds in one unit of the resolution. -/
def unit : Resolution → Nat
  | nanoseconds => 1
  | microseconds => 1000
  | milliseconds => 1000000
  | seconds => 1000000000

/-- Largest multiple of the unit that is not later than the time. A time before 1970
is kept as it is. -/
def truncate (resolution : Resolution) (time : Time) : Time :=
  if time < 0 then time else time - time % resolution.unit

end Resolution

end RamFs
