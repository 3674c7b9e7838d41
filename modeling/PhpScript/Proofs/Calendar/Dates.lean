import Mathlib
import PhpScript.Native.Time

/-!
# Dates and timestamps

Every day has a date, and every date that exists is the date of one day. So the parts that are shown
for a moment lead back to it, and the parts that lead to a moment are the ones that are shown for it
exactly if they are a date and a time of day.
-/

namespace PhpScript

namespace Calendar

/-! ## Years -/

theorem daysToYear_succ (year : Int) :
    daysToYear (year + 1) = daysToYear year + ((monthLengths (isLeapYear year)).sum : Nat) := by
  have length : (((monthLengths (isLeapYear year)).sum : Nat) : Int) =
      if isLeapYear year then 366 else 365 := by
    cases isLeapYear year <;> rfl
  rw [length]
  simp only [daysToYear, isLeapYear, Bool.and_eq_true, Bool.or_eq_true, decide_eq_true_eq]
  split <;> omega

theorem daysToYear_mono {earlier later : Int} (ordered : earlier ≤ later) :
    daysToYear earlier ≤ daysToYear later := by
  simp only [daysToYear]
  omega

theorem daysToYear_yearOf (day : Int) :
    daysToYear (yearOf day) ≤ day ∧ day < daysToYear (yearOf day + 1) := by
  unfold yearOf
  dsimp only
  generalize isEstimate : 400 * (day + 719162) / 146097 + 1 = estimate
  have near : daysToYear (estimate - 1) ≤ day ∧ day < daysToYear (estimate + 2) := by
    simp only [daysToYear]
    omega
  split
  · exact ⟨near.1, by rw [Int.sub_add_cancel]; assumption⟩
  · split
    · rename_i reached
      exact ⟨reached, by rw [Int.add_assoc]; exact near.2⟩
    · omega

theorem yearOf_eq {year day : Int} (after : daysToYear year ≤ day)
    (before : day < daysToYear (year + 1)) : yearOf day = year := by
  rcases daysToYear_yearOf day with ⟨afterFound, beforeFound⟩
  rcases Int.lt_trichotomy (yearOf day) year with less | same | greater
  · have := daysToYear_mono (Int.add_one_le_of_lt less)
    omega
  · exact same
  · have := daysToYear_mono (Int.add_one_le_of_lt greater)
    omega

/-! ## Months -/

theorem daysToMonth_eq (year : Int) (month : Nat) :
    daysToMonth year month = ((monthLengths (isLeapYear year)).take (month - 1)).sum := by
  rw [daysToMonth, List.sum_eq_foldl]

section MonthAndDay

variable {lengths : List Nat} {index day : Nat}

theorem monthAndDay_eq (month : Nat) (isIndex : index < lengths.length)
    (small : day < lengths[index]) :
    monthAndDay month lengths ((lengths.take index).sum + day) = (month + index, day + 1) := by
  induction lengths generalizing month index with
  | nil => cases isIndex
  | cons length rest ih =>
    cases index with
    | zero =>
      have own : day < length := small
      simp [monthAndDay, own]
    | succ index =>
      have isInside : index < rest.length := Nat.lt_of_succ_lt_succ isIndex
      have nonempty : rest ≠ [] := List.ne_nil_of_length_pos (Nat.zero_lt_of_lt isInside)
      have later := ih (month + 1) isInside small
      rw [List.take_succ_cons, List.sum_cons, Nat.add_assoc, monthAndDay,
        if_neg (by simp [nonempty]), Nat.add_sub_cancel_left, later, Nat.add_assoc,
        Nat.add_comm 1]

theorem exists_index (small : day < lengths.sum) :
    ∃ (index : Nat) (isIndex : index < lengths.length) (left : Nat),
      left < lengths[index] ∧ day = (lengths.take index).sum + left := by
  induction lengths generalizing day with
  | nil => cases small
  | cons length rest ih =>
    by_cases isFirst : day < length
    · exact ⟨0, Nat.succ_pos _, day, isFirst, by simp⟩
    · rw [List.sum_cons] at small
      have smaller : day - length < rest.sum := by omega
      rcases ih smaller with ⟨index, isIndex, left, isInside, same⟩
      refine ⟨index + 1, Nat.succ_lt_succ isIndex, left, isInside, ?_⟩
      rw [List.take_succ_cons, List.sum_cons]
      omega

theorem sum_take_lt (isIndex : index < lengths.length) (small : day < lengths[index]) :
    (lengths.take index).sum + day < lengths.sum := by
  have parts := congrArg List.sum (List.take_append_drop index lengths)
  rw [List.sum_append, List.drop_eq_getElem_cons isIndex, List.sum_cons] at parts
  omega

end MonthAndDay

/-! ## Dates -/

/-- A date that the calendar has. -/
structure Date.IsProper (date : Date) : Prop where
  month : 1 ≤ date.month ∧ date.month ≤ 12
  day : 1 ≤ date.day ∧ date.day ≤ monthLength date.year date.month

theorem length_monthLengths (isLeap : Bool) : (monthLengths isLeap).length = 12 := rfl

theorem Date.IsProper.exists_index {date : Date} (proper : date.IsProper) :
    ∃ (isIndex : date.month - 1 < (monthLengths (isLeapYear date.year)).length),
      date.day - 1 < (monthLengths (isLeapYear date.year))[date.month - 1] := by
  rcases proper with ⟨⟨firstMonth, lastMonth⟩, firstDay, lastDay⟩
  refine ⟨by rw [length_monthLengths]; omega, ?_⟩
  rw [monthLength, List.getD_eq_getElem _ _ (by rw [length_monthLengths]; omega)] at lastDay
  omega

theorem Date.IsProper.inYear {date : Date} (proper : date.IsProper) :
    daysToYear date.year ≤ dayOf date ∧ dayOf date < daysToYear (date.year + 1) := by
  rcases proper.exists_index with ⟨isIndex, small⟩
  have inside := sum_take_lt isIndex small
  rw [daysToYear_succ, dayOf, daysToMonth_eq]
  omega

theorem Date.IsProper.day_le {date : Date} (proper : date.IsProper) : date.day ≤ 366 := by
  have inYear := proper.inYear
  have yearLength : (monthLengths (isLeapYear date.year)).sum ≤ 366 := by
    cases isLeapYear date.year <;> decide
  rw [daysToYear_succ, dayOf] at inYear
  omega

theorem date_dayOf {date : Date} (proper : date.IsProper) : Calendar.date (dayOf date) = date := by
  rcases proper.exists_index with ⟨isIndex, small⟩
  have year : yearOf (dayOf date) = date.year := yearOf_eq proper.inYear.1 proper.inYear.2
  have shift : (dayOf date - daysToYear date.year).toNat =
      ((monthLengths (isLeapYear date.year)).take (date.month - 1)).sum + (date.day - 1) := by
    rw [dayOf, daysToMonth_eq]
    omega
  rw [Calendar.date, year, shift]
  simp only [monthAndDay_eq 1 isIndex small]
  rcases date with ⟨ownYear, month, day⟩
  rcases proper with ⟨⟨firstMonth, _⟩, firstDay, _⟩
  simp only [Date.mk.injEq, true_and]
  exact ⟨Nat.add_sub_of_le firstMonth, Nat.sub_add_cancel firstDay⟩

theorem exists_dayOf_eq (day : Int) : ∃ date : Date, date.IsProper ∧ dayOf date = day := by
  rcases daysToYear_yearOf day with ⟨after, before⟩
  have small : (day - daysToYear (yearOf day)).toNat <
      (monthLengths (isLeapYear (yearOf day))).sum := by
    rw [daysToYear_succ] at before
    omega
  rcases exists_index small with ⟨index, isIndex, left, isInside, same⟩
  refine ⟨⟨yearOf day, index + 1, left + 1⟩, ⟨⟨by simp, isIndex⟩, by simp, ?_⟩, ?_⟩
  · rw [monthLength, Nat.add_sub_cancel, List.getD_eq_getElem _ _ isIndex]
    exact isInside
  · rw [dayOf, daysToMonth_eq]
    simp only [Nat.add_sub_cancel]
    omega

theorem date_isProper (day : Int) : (date day).IsProper ∧ dayOf (date day) = day := by
  rcases exists_dayOf_eq day with ⟨found, proper, rfl⟩
  rw [date_dayOf proper]
  exact ⟨proper, rfl⟩

end Calendar

/-! ## Timestamps -/

namespace TimeFunction

open Calendar (dayOf daysToYear firstYear lastYear)

section Sums

variable {year month day hour minute second result number : Int} {date : Calendar.Date}

theorem bounded?_eq_some (small : -9223372036854775808 ≤ result)
    (large : result ≤ 9223372036854775807) : bounded? result = some result :=
  if_pos ⟨small, large⟩

theorem bounded?_bind (small : -9223372036854775808 ≤ number) (large : number ≤ 9223372036854775807)
    (next : Int → Option Int) : (bounded? number >>= next) = next number := by
  rw [bounded?_eq_some small large]
  rfl

theorem eq_of_bounded? (found : bounded? number = some result) : number = result := by
  unfold bounded? at found
  split at found
  · exact Option.some.inj found
  · cases found

theorem bind_bounded? {next : Int → Option Int} (found : (bounded? number >>= next) = some result) :
    next number = some result := by
  rcases Option.bind_eq_some_iff.mp found with ⟨value, isBounded, later⟩
  rwa [eq_of_bounded? isBounded]

/-- The first day of a month, which may lie outside of its year. -/
def firstDay (year month : Int) : Int :=
  let months := 12 * year + (month - 1)
  dayOf ⟨months / 12, (months % 12).toNat + 1, 1⟩

theorem eq_of_timestamp? (found : timestamp? year month day hour minute second = some result) :
    result = 86400 * (firstDay year month + (day - 1)) + 3600 * hour + 60 * minute + second := by
  have months := bind_bounded? (bind_bounded? (bind_bounded? found))
  dsimp only at months
  split at months
  · cases months
  · have days := bind_bounded? (bind_bounded? (bind_bounded? months))
    have times := bind_bounded? (bind_bounded? (bind_bounded? (bind_bounded? days)))
    exact (eq_of_bounded? times).symm

theorem firstDay_of_proper (proper : date.IsProper) :
    firstDay date.year date.month + (date.day - 1) = dayOf date := by
  rcases proper with ⟨⟨firstMonth, lastMonth⟩, isDay, _⟩
  have isYear : (12 * date.year + (date.month - 1)) / 12 = date.year := by omega
  have isMonth : ((12 * date.year + (date.month - 1)) % 12).toNat + 1 = date.month := by omega
  simp only [firstDay, isYear, isMonth, dayOf]
  omega

theorem timestamp?_of_proper (proper : date.IsProper) (first : firstYear ≤ date.year)
    (last : date.year ≤ lastYear) {hour minute second : Nat} (isHour : hour < 24)
    (isMinute : minute < 60) (isSecond : second < 60) :
    timestamp? date.year date.month date.day hour minute second =
      some (86400 * dayOf date + 3600 * hour + 60 * minute + second) := by
  have inYear := proper.inYear
  have days := firstDay_of_proper proper
  have isFirst : daysToYear date.year ≤ firstDay date.year date.month := by
    rcases proper.month with ⟨firstMonth, lastMonth⟩
    have isYear : (12 * date.year + (date.month - 1)) / 12 = date.year := by omega
    simp only [firstDay, isYear, dayOf]
    omega
  rcases proper with ⟨⟨firstMonth, lastMonth⟩, isDay, _⟩
  have inYears : ¬(decide ((12 * date.year + (date.month - 1)) / 12 < firstYear) ||
      decide (lastYear < (12 * date.year + (date.month - 1)) / 12)) = true := by
    simp only [Bool.or_eq_true, decide_eq_true_eq]
    omega
  simp only [firstDay] at days isFirst
  simp only [daysToYear, firstYear, lastYear] at inYear isFirst first last
  rw [timestamp?, bounded?_bind (by omega) (by omega), bounded?_bind (by omega) (by omega),
    bounded?_bind (by omega) (by omega)]
  dsimp only
  rw [if_neg inYears, Calendar.secondsPerDay, bounded?_bind (by omega) (by omega), days,
    bounded?_bind (by omega) (by omega), bounded?_bind (by omega) (by omega),
    bounded?_bind (by omega) (by omega), bounded?_bind (by omega) (by omega),
    bounded?_bind (by omega) (by omega), bounded?_bind (by omega) (by omega)]
  exact bounded?_eq_some (by omega) (by omega)

end Sums

/-- A date and a time of day, as numbers of a script. -/
@[ext]
structure Parts where
  year : Int64
  month : Int64
  day : Int64
  hour : Int64
  minute : Int64
  second : Int64

def Parts.timestamp? (parts : Parts) : Option Int :=
  TimeFunction.timestamp? parts.year.toInt parts.month.toInt parts.day.toInt parts.hour.toInt
    parts.minute.toInt parts.second.toInt

/-- An array has these parts as its fields. -/
structure Shows (table : Table Key Value) (parts : Parts) : Prop where
  year : table.get? (.str "year") = some (.int parts.year)
  month : table.get? (.str "mon") = some (.int parts.month)
  day : table.get? (.str "mday") = some (.int parts.day)
  hour : table.get? (.str "hours") = some (.int parts.hour)
  minute : table.get? (.str "minutes") = some (.int parts.minute)
  second : table.get? (.str "seconds") = some (.int parts.second)

/-- The seconds of the years from -262143 to 262142. -/
def IsSupported (seconds : Int) : Prop := -8334601228800 ≤ seconds ∧ seconds ≤ 8210266876799

theorem ofSeconds_of_isSupported {seconds : Int} (supported : IsSupported seconds) :
    Moment.ofSeconds seconds = ⟨seconds, 0⟩ := by
  have isFirst : daysToYear firstYear = -96465292 := by decide
  have isLast : daysToYear (lastYear + 1) = 95026237 := by decide
  rcases supported with ⟨first, last⟩
  refine if_pos ?_
  rw [Bool.and_eq_true, decide_eq_true_eq, decide_eq_true_eq, Calendar.secondsPerDay]
  omega

theorem toInt_wrap {number : Int} (small : -262143 ≤ number) (large : number ≤ 262142) :
    (Integer.wrap number).toInt = number :=
  Int64.toInt_ofInt_of_le (by omega) (by omega)

def partsOf (moment : Moment) : Parts where
  year := Integer.wrap moment.date.year
  month := Integer.wrap moment.date.month
  day := Integer.wrap moment.date.day
  hour := Integer.wrap moment.hour
  minute := Integer.wrap moment.minute
  second := Integer.wrap moment.second

theorem shows_dateTable (moment : Moment) : Shows (dateTable moment) (partsOf moment) := by
  constructor <;> simp [dateTable, Table.ofList, Table.insertAll, partsOf]

theorem Shows.unique {table : Table Key Value} {parts others : Parts} (isShown : Shows table parts)
    (isOther : Shows table others) : parts = others := by
  have same {key : Key} {left right : Int64} (found : table.get? key = some (.int left))
      (again : table.get? key = some (.int right)) : left = right :=
    Value.int.inj (Option.some.inj (found.symm.trans again))
  exact Parts.ext (same isShown.year isOther.year) (same isShown.month isOther.month)
    (same isShown.day isOther.day) (same isShown.hour isOther.hour)
    (same isShown.minute isOther.minute) (same isShown.second isOther.second)

variable {seconds : Int}

theorem secondOfDay_eq (moment : Moment) :
    moment.seconds = 86400 * moment.day + 3600 * moment.hour + 60 * moment.minute + moment.second ∧
      moment.hour < 24 ∧ moment.minute < 60 ∧ moment.second < 60 := by
  simp only [Moment.hour, Moment.minute, Moment.second, Moment.secondOfDay, Moment.day,
    Calendar.secondsPerDay]
  omega

/-- Numbers that are the parts of a moment. -/
structure Parts.Denotes (parts : Parts) (moment : Moment) : Prop where
  year : parts.year.toInt = moment.date.year
  month : parts.month.toInt = moment.date.month
  day : parts.day.toInt = moment.date.day
  hour : parts.hour.toInt = moment.hour
  minute : parts.minute.toInt = moment.minute
  second : parts.second.toInt = moment.second

theorem Parts.Denotes.partsOf_eq {parts : Parts} {moment : Moment}
    (denotes : parts.Denotes moment) : partsOf moment = parts := by
  rcases denotes with ⟨isYear, isMonth, isDay, isHour, isMinute, isSecond⟩
  simp only [partsOf, Integer.wrap, ← isYear, ← isMonth, ← isDay, ← isHour, ← isMinute, ← isSecond,
    Int64.ofInt_toInt]

theorem Parts.Denotes.isTime {parts : Parts} {moment : Moment} (denotes : parts.Denotes moment)
    (positive : 1 ≤ parts.year.toInt) (small : parts.year.toInt ≤ 32767) :
    isDate parts.month.toInt parts.day.toInt parts.year.toInt = true ∧
      (0 ≤ parts.hour.toInt ∧ parts.hour.toInt < 24) ∧
      (0 ≤ parts.minute.toInt ∧ parts.minute.toInt < 60) ∧
      0 ≤ parts.second.toInt ∧ parts.second.toInt < 60 := by
  rcases denotes with ⟨isYear, isMonth, isDay, isHour, isMinute, isSecond⟩
  rcases secondOfDay_eq moment with ⟨_, hours, minutes, lastSecond⟩
  have proper : moment.date.IsProper := (Calendar.date_isProper moment.day).1
  rcases proper with ⟨monthRange, dayRange⟩
  rw [← Int.toNat_natCast moment.date.month, ← isMonth, ← isYear] at dayRange
  refine ⟨?_, by omega, by omega, by omega⟩
  simp only [isDate, Bool.and_eq_true, decide_eq_true_eq]
  omega

theorem year_of_isSupported (supported : IsSupported seconds) :
    let moment : Moment := ⟨seconds, 0⟩
    firstYear ≤ moment.date.year ∧ moment.date.year ≤ lastYear := by
  intro moment
  have inYear : daysToYear moment.date.year ≤ moment.day ∧
      moment.day < daysToYear (moment.date.year + 1) := Calendar.daysToYear_yearOf moment.day
  have isFirst : daysToYear firstYear = -96465292 := by decide
  have isLast : daysToYear (lastYear + 1) = 95026237 := by decide
  have isDay : moment.day = seconds / 86400 := rfl
  rcases supported with ⟨first, last⟩
  refine ⟨Int.not_lt.mp fun isEarlier => ?_, Int.not_lt.mp fun isLater => ?_⟩
  · have ordered := Calendar.daysToYear_mono (Int.add_one_le_of_lt isEarlier)
    omega
  · have ordered := Calendar.daysToYear_mono (Int.add_one_le_of_lt isLater)
    omega

theorem denotes_partsOf (supported : IsSupported seconds) :
    (partsOf ⟨seconds, 0⟩).Denotes ⟨seconds, 0⟩ := by
  rcases year_of_isSupported supported with ⟨first, last⟩
  rcases Calendar.date_isProper (Moment.mk seconds 0).day with ⟨proper, _⟩
  rcases secondOfDay_eq ⟨seconds, 0⟩ with ⟨_, isHour, isMinute, isSecond⟩
  have lastDay := proper.day_le
  have lastMonth := proper.month.2
  exact ⟨toInt_wrap first last, toInt_wrap (by omega) (by simp only [Moment.date]; omega),
    toInt_wrap (by omega) (by simp only [Moment.date]; omega), toInt_wrap (by omega) (by omega),
    toInt_wrap (by omega) (by omega), toInt_wrap (by omega) (by omega)⟩

theorem timestamp?_partsOf (supported : IsSupported seconds) :
    (partsOf ⟨seconds, 0⟩).timestamp? = some seconds := by
  rcases denotes_partsOf supported with ⟨isYear, isMonth, isDay, isHour, isMinute, isSecond⟩
  rcases year_of_isSupported supported with ⟨first, last⟩
  rcases Calendar.date_isProper (Moment.mk seconds 0).day with ⟨proper, same⟩
  rcases secondOfDay_eq ⟨seconds, 0⟩ with ⟨total, hours, minutes, lastSecond⟩
  rw [Parts.timestamp?, isYear, isMonth, isDay, isHour, isMinute, isSecond, Moment.date,
    timestamp?_of_proper proper first last hours minutes lastSecond, same, ← total]

theorem denotes_of_isDate {parts : Parts} (found : parts.timestamp? = some seconds)
    (isDate : isDate parts.month.toInt parts.day.toInt parts.year.toInt = true)
    (isHour : 0 ≤ parts.hour.toInt ∧ parts.hour.toInt < 24)
    (isMinute : 0 ≤ parts.minute.toInt ∧ parts.minute.toInt < 60)
    (isSecond : 0 ≤ parts.second.toInt ∧ parts.second.toInt < 60) : parts.Denotes ⟨seconds, 0⟩ := by
  simp only [TimeFunction.isDate, Bool.and_eq_true, decide_eq_true_eq] at isDate
  let date : Calendar.Date := ⟨parts.year.toInt, parts.month.toInt.toNat, parts.day.toInt.toNat⟩
  have proper : date.IsProper := ⟨by simp only [date]; omega, by simp only [date]; omega⟩
  have days : firstDay parts.year.toInt parts.month.toInt + (parts.day.toInt - 1) = dayOf date := by
    rw [← firstDay_of_proper proper]
    simp only [date, Int.toNat_of_nonneg (by omega : 0 ≤ parts.month.toInt),
      Int.toNat_of_nonneg (by omega : 0 ≤ parts.day.toInt)]
  have total := eq_of_timestamp? found
  rw [days] at total
  have isDay : (Moment.mk seconds 0).day = dayOf date := by
    simp only [Moment.day, Calendar.secondsPerDay]
    omega
  have isDated : (Moment.mk seconds 0).date = date := by
    rw [Moment.date, isDay, Calendar.date_dayOf proper]
  constructor
  · rw [isDated]
  · rw [isDated]
    simp only [date]
    omega
  · rw [isDated]
    simp only [date]
    omega
  all_goals
    simp only [Moment.hour, Moment.minute, Moment.second, Moment.secondOfDay,
      Calendar.secondsPerDay]
    omega

/-- The parts that are shown for a timestamp lead back to it. Parts that lead to a timestamp are
shown for it exactly if they are a date and a time of day. -/
theorem timestamps_invert_dates (now : Moment) :
    (∀ timestamp : Int64, IsSupported timestamp.toInt →
      ∃ table parts, apply .dateFields now [.int timestamp] = .array table ∧ Shows table parts ∧
        parts.timestamp? = some timestamp.toInt) ∧
    ∀ (parts : Parts) (timestamp : Int64), 1 ≤ parts.year.toInt → parts.year.toInt ≤ 32767 →
      parts.timestamp? = some timestamp.toInt → IsSupported timestamp.toInt →
      ∃ table, apply .dateFields now [.int timestamp] = .array table ∧
        (Shows table parts ↔
          apply .checkDate now [.int parts.month, .int parts.day, .int parts.year] = .bool true ∧
          (0 ≤ parts.hour.toInt ∧ parts.hour.toInt < 24) ∧
          (0 ≤ parts.minute.toInt ∧ parts.minute.toInt < 60) ∧
          0 ≤ parts.second.toInt ∧ parts.second.toInt < 60) := by
  have shown {timestamp : Int64} (supported : IsSupported timestamp.toInt) :
      apply .dateFields now [.int timestamp] = .array (dateTable ⟨timestamp.toInt, 0⟩) := by
    rw [← ofSeconds_of_isSupported supported]
    rfl
  constructor
  · intro timestamp supported
    exact ⟨_, _, shown supported, shows_dateTable _, timestamp?_partsOf supported⟩
  · intro parts timestamp positive small found supported
    refine ⟨_, shown supported, fun isShown => ?_, ?_⟩
    · cases isShown.unique (shows_dateTable _)
      rcases (denotes_partsOf supported).isTime positive small with ⟨isDate, isTime⟩
      exact ⟨congrArg Value.bool isDate, isTime⟩
    · rintro ⟨isDate, isHour, isMinute, isSecond⟩
      have denotes := denotes_of_isDate found (Value.bool.inj isDate) isHour isMinute isSecond
      rw [← denotes.partsOf_eq]
      exact shows_dateTable _

/-- The last day of February in the year zero, and a day that carries over to March. -/
theorem timestamps_invert_dates_carried :
    let now : Moment := ⟨0, 0⟩
    let carried : Parts := ⟨2023, 2, 29, 0, 0, 0⟩
    (∃ table parts, apply .dateFields now [.int (-62162208000)] = .array table ∧
      Shows table parts ∧ parts.timestamp? = some (-62162208000)) ∧
    carried.timestamp? = some 1677628800 ∧
    ∃ table, apply .dateFields now [.int 1677628800] = .array table ∧ ¬Shows table carried := by
  intro now carried
  have made : carried.timestamp? = some 1677628800 := by decide
  refine ⟨(timestamps_invert_dates now).1 (-62162208000) ⟨by decide, by decide⟩, made, ?_⟩
  rcases (timestamps_invert_dates now).2 carried 1677628800 (by decide) (by decide) made
    ⟨by decide, by decide⟩ with ⟨table, isShown, onlyDates⟩
  refine ⟨table, isShown, fun shown => ?_⟩
  have isDate := Value.bool.inj (onlyDates.mp shown).1
  revert isDate
  decide

end TimeFunction

end PhpScript
