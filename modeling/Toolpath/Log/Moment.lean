import Toolpath.Decimal.Digits
import Toolpath.Fault
import Toolpath.Numeric.Whole

/-! Moments, given in seconds since the start of 1970, written as date and time of day in universal time. The
fraction is rounded to microseconds, a half to the even one, and then cut to milliseconds. -/
namespace Toolpath.Log

structure Moment where
  seconds : Int
  micros : Int
  deriving DecidableEq

namespace Moment

/-- The seconds beyond which a year is no 32-bit integer any more. -/
def lastCalendarSecond : Int := 67768036191676799
def firstCalendarSecond : Int := -67768040609740800

/-- One past the greatest machine integer. -/
def machineBound : Int := 9223372036854775808

def ofSeconds (created : Float) : Except Fault Moment := do
  let whole ← Binary64.truncate created
  if whole < -machineBound ∨ machineBound ≤ whole then throw .tooLarge
  let fraction := created - Binary64.ofInt whole
  let micros ← Binary64.nearestWhole (fraction * 1000000)
  let total := whole * 1000000 + micros
  return ⟨total.fdiv 1000000, total.fmod 1000000⟩

/-- Year, month and day of a day counted from the start of 1970. The count is moved to the first of March of
year 0, so that the day that a leap year has more is the last of its year. -/
def civil (day : Int) : Int × Int × Int :=
  let z := day + 719468
  let era := z.fdiv 146097
  let dayOfEra := z - era * 146097
  let yearOfEra := (dayOfEra - dayOfEra / 1460 + dayOfEra / 36524 - dayOfEra / 146096) / 365
  let dayOfYear := dayOfEra - (365 * yearOfEra + yearOfEra / 4 - yearOfEra / 100)
  let shifted := (5 * dayOfYear + 2) / 153
  let dayOfMonth := dayOfYear - (153 * shifted + 2) / 5 + 1
  let month := if shifted < 10 then shifted + 3 else shifted - 9
  (yearOfEra + era * 400 + (if month ≤ 2 then 1 else 0), month, dayOfMonth)

def field (width : Nat) (n : Int) : List Char := Decimal.padded width n.toNat

def text (m : Moment) : Except Fault (List Char) :=
  if m.seconds < firstCalendarSecond ∨ lastCalendarSecond < m.seconds then .error .momentBeyondCalendar
  else
    let (year, month, day) := civil (m.seconds.fdiv 86400)
    let second := m.seconds.fmod 86400
    if year < 1 ∨ 9999 < year then .error .momentOutOfRange
    else .ok (field 4 year ++ '-' :: field 2 month ++ '-' :: field 2 day ++ 'T' :: field 2 (second / 3600) ++
      ':' :: field 2 (second / 60 % 60) ++ ':' :: field 2 (second % 60) ++ '.' :: field 3 (m.micros / 1000) ++
      "+00:00".toList)

end Moment

end Toolpath.Log
