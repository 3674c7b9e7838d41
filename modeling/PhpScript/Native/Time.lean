import PhpScript.Calendar.Format
import PhpScript.Signature

/-!
# Native functions on dates and times

They compute with universal time. Where a function needs the present moment, it is given to it.
-/

namespace PhpScript

/-- Functions on dates and times. -/
inductive TimeFunction where
  | checkDate | date | dateFields | timeFields | microtime | makeTime | time
deriving DecidableEq

namespace TimeFunction

def names : List (String × TimeFunction) :=
  [("checkdate", .checkDate), ("date", .date), ("getdate", .dateFields),
    ("localtime", .timeFields), ("microtime", .microtime), ("mktime", .makeTime), ("time", .time)]

def signature : TimeFunction → Signature
  | .checkDate =>
    ⟨"checkdate", [.required "$month" [.int], .required "$day" [.int],
      .required "$year" [.int]]⟩
  | .date => ⟨"date", [.required "$format" [.string], .optional "$timestamp" [.int] .null]⟩
  | .dateFields => ⟨"getdate", [.optional "$timestamp" [.int] .null]⟩
  | .timeFields =>
    ⟨"localtime", [.optional "$timestamp" [.int] .null,
      .optional "$associative" [.bool] (.bool false)]⟩
  | .microtime => ⟨"microtime", [.optional "$as_float" [.bool] (.bool false)]⟩
  | .makeTime =>
    ⟨"mktime", [.required "$hour" [.int], .optional "$minute" [.int] .null,
      .optional "$second" [.int] .null, .optional "$month" [.int] .null,
      .optional "$day" [.int] .null, .optional "$year" [.int] .null]⟩
  | .time => ⟨"time", []⟩

def isDate (month day year : Int) : Bool :=
  1 ≤ year && year ≤ 32767 && 1 ≤ month && month ≤ 12 && 1 ≤ day
    && day ≤ Calendar.monthLength year month.toNat

def momentOf (now : Moment) (timestamp : Value) : Moment :=
  match timestamp with
  | .null => now
  | other => .ofSeconds other.toInt.toInt

def partOf (present : Int) (part : Value) : Int :=
  match part with
  | .null => present
  | other => other.toInt.toInt

/-- The year of an argument; the years from 0 to 100 stand for those from 1970 to 2069, and null
for the present one. -/
def yearOf (present : Int) (year : Value) : Int :=
  match year with
  | .null => present
  | other =>
    let number := other.toInt.toInt
    if 0 ≤ number && number ≤ 69 then number + 2000
    else if 70 ≤ number && number ≤ 100 then number + 1900
    else number

def bounded? (number : Int) : Option Int :=
  if Integer.minimum ≤ number ∧ number ≤ Integer.maximum then some number else none

/-- The seconds from the beginning of 1970 to a time, the parts of which may lie outside their
usual ranges. No step may leave the range of integers. -/
def timestamp? (year month day hour minute second : Int) : Option Int := do
  let yearMonths ← bounded? (12 * year)
  let earlierMonths ← bounded? (month - 1)
  let months ← bounded? (yearMonths + earlierMonths)
  let wholeYear := months / 12
  if wholeYear < Calendar.firstYear || Calendar.lastYear < wholeYear then none
  else
    let first := Calendar.dayOf ⟨wholeYear, (months % 12).toNat + 1, 1⟩
    let earlierDays ← bounded? (day - 1)
    let days ← bounded? (first + earlierDays)
    let midnight ← bounded? (Calendar.secondsPerDay * days)
    let hours ← bounded? (3600 * hour)
    let fullHour ← bounded? (midnight + hours)
    let minutes ← bounded? (60 * minute)
    let fullMinute ← bounded? (fullHour + minutes)
    bounded? (fullMinute + second)

/-- The parts of a moment by their names. -/
def dateTable (moment : Moment) : Table Key Value :=
  let number (value : Int) : Value := .int (Integer.wrap value)
  Table.ofList
    [(.str "seconds", number moment.second), (.str "minutes", number moment.minute),
      (.str "hours", number moment.hour), (.str "mday", number moment.date.day),
      (.str "wday", number (Calendar.weekday moment.day)),
      (.str "mon", number moment.date.month), (.str "year", number moment.date.year),
      (.str "yday", number (Calendar.dayOfYear moment.day)),
      (.str "weekday", .str moment.weekdayName), (.str "month", .str moment.monthName),
      (.int 0, number moment.seconds)]

/-- The parts of a moment as counts that mostly start from zero. -/
def timeParts (moment : Moment) : List (String × Int) :=
  [("tm_sec", moment.second), ("tm_min", moment.minute), ("tm_hour", moment.hour),
    ("tm_mday", moment.date.day), ("tm_mon", moment.date.month - 1),
    ("tm_year", moment.date.year - 1900), ("tm_wday", Calendar.weekday moment.day),
    ("tm_yday", Calendar.dayOfYear moment.day), ("tm_isdst", 0)]

def fractionText (moment : Moment) : String :=
  "0." ++ Calendar.padded 6 moment.microseconds ++ "00 " ++ toString moment.seconds

def secondsFloat (moment : Moment) : Float :=
  Binary64.ofInt moment.seconds + Binary64.ofInt moment.microseconds / 1000000.0

def apply (function : TimeFunction) (now : Moment) (arguments : List Value) : Value :=
  match function, arguments with
  | .checkDate, [month, day, year] =>
    .bool (isDate month.toInt.toInt day.toInt.toInt year.toInt.toInt)
  | .date, [pattern, timestamp] => .str ((momentOf now timestamp).format pattern.toText)
  | .dateFields, [timestamp] => .array (dateTable (momentOf now timestamp))
  | .timeFields, [timestamp, named] =>
    let parts := (timeParts (momentOf now timestamp)).map fun (name, part) =>
      (Key.str name, Value.int (Integer.wrap part))
    if named.toBool then .array (Table.ofList parts)
    else .array (Table.ofValues (parts.map (·.2)))
  | .microtime, [asFloat] =>
    if asFloat.toBool then .float (secondsFloat now) else .str (fractionText now)
  | .makeTime, [hour, minute, second, month, day, year] =>
    let timestamp := timestamp? (yearOf now.date.year year) (partOf now.date.month month)
      (partOf now.date.day day) (partOf now.hour hour) (partOf now.minute minute)
      (partOf now.second second)
    match timestamp with
    | some seconds => .int (Integer.wrap seconds)
    | none => .bool false
  | .time, [] => .int (Integer.wrap now.seconds)
  | _, _ => .null

end TimeFunction

end PhpScript
