import PhpScript.Calendar.Basic

/-!
# Writing of dates

A pattern is a text in which certain letters stand for parts of a moment. A backslash takes the
meaning from the next letter.
-/

namespace PhpScript

namespace Calendar

def weekdayNames : List String :=
  ["Sunday", "Monday", "Tuesday", "Wednesday", "Thursday", "Friday", "Saturday"]

def monthNames : List String :=
  ["January", "February", "March", "April", "May", "June", "July", "August", "September",
    "October", "November", "December"]

def abbreviation (name : String) : String := String.ofList (name.toList.take 3)

def padded (width value : Nat) : String :=
  let digits := Nat.toDigits 10 value
  String.ofList (List.replicate (width - digits.length) '0' ++ digits)

/-- A year with four digits at least; years of more digits and years before zero have a sign. -/
def signedYear (year : Int) : String :=
  if 0 ≤ year && year ≤ 9999 then padded 4 year.toNat
  else (if year < 0 then "-" else "+") ++ padded 4 year.natAbs

def ordinalEnding (number : Nat) : String :=
  if 11 ≤ number % 100 && number % 100 ≤ 13 then "th"
  else
    match number % 10 with
    | 1 => "st"
    | 2 => "nd"
    | 3 => "rd"
    | _ => "th"

end Calendar

namespace Moment

def weekdayName (moment : Moment) : String :=
  Calendar.weekdayNames.getD (Calendar.weekday moment.day) ""

def monthName (moment : Moment) : String := Calendar.monthNames.getD (moment.date.month - 1) ""

def dialHour (moment : Moment) : Nat := if moment.hour % 12 = 0 then 12 else moment.hour % 12

def timeText (moment : Moment) : String :=
  let two := Calendar.padded 2
  two moment.hour ++ ":" ++ two moment.minute ++ ":" ++ two moment.second

/-- What a letter of a pattern stands for. -/
def letter (moment : Moment) (symbol : Char) : String :=
  let two := Calendar.padded 2
  let date := moment.date
  let day := moment.day
  match symbol with
  | 'd' => two date.day
  | 'D' => Calendar.abbreviation moment.weekdayName
  | 'j' => toString date.day
  | 'l' => moment.weekdayName
  | 'N' => toString (Calendar.weekdayFromMonday day + 1)
  | 'S' => Calendar.ordinalEnding date.day
  | 'w' => toString (Calendar.weekday day)
  | 'z' => toString (Calendar.dayOfYear day)
  | 'W' => two (Calendar.week day).2
  | 'F' => moment.monthName
  | 'm' => two date.month
  | 'M' => Calendar.abbreviation moment.monthName
  | 'n' => toString date.month
  | 't' => toString (Calendar.monthLength date.year date.month)
  | 'L' => if Calendar.isLeapYear date.year then "1" else "0"
  | 'o' => toString (Calendar.week day).1
  | 'Y' => toString date.year
  | 'y' => two (date.year % 100).toNat
  | 'a' => if moment.hour < 12 then "am" else "pm"
  | 'A' => if moment.hour < 12 then "AM" else "PM"
  | 'g' => toString moment.dialHour
  | 'G' => toString moment.hour
  | 'h' => two moment.dialHour
  | 'H' => two moment.hour
  | 'i' => two moment.minute
  | 's' => two moment.second
  | 'u' => Calendar.padded 6 moment.microseconds
  | 'v' => Calendar.padded 3 (moment.microseconds / 1000)
  | 'e' => "UTC"
  | 'T' => "GMT"
  | 'P' => "+00:00"
  | 'p' => "Z"
  | 'O' => "+0000"
  | 'Z' | 'I' => "0"
  | 'U' => toString moment.seconds
  | 'c' =>
    Calendar.signedYear date.year ++ "-" ++ two date.month ++ "-" ++ two date.day ++ "T"
      ++ moment.timeText ++ "+00:00"
  | 'r' =>
    Calendar.abbreviation moment.weekdayName ++ ", " ++ two date.day ++ " "
      ++ Calendar.abbreviation moment.monthName ++ " " ++ Calendar.signedYear date.year ++ " "
      ++ moment.timeText ++ " +0000"
  | other => other.toString

def formatPieces (moment : Moment) : List Char → List String
  | [] => []
  | ['\\'] => []
  | '\\' :: escaped :: rest => escaped.toString :: formatPieces moment rest
  | symbol :: rest => moment.letter symbol :: formatPieces moment rest

def format (moment : Moment) (pattern : String) : String :=
  String.join (moment.formatPieces pattern.toList)

end Moment

end PhpScript
