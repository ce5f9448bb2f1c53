import Trellis.Field

/-!
Time units: the parts of a date that a unit such as `yearmonth` keeps, and the expression that cuts a
date down to them.

Parts are found one after the other in a fixed order, longer names first, and each is removed from
the unit once found.
-/

namespace Trellis

/-- The parts of a date a unit names. -/
structure TimeUnit where
  year : Bool
  quarter : Bool
  month : Bool
  date : Bool
  day : Bool
  hours : Bool
  minutes : Bool
  seconds : Bool
  milliseconds : Bool
deriving DecidableEq, Repr

namespace TimeUnit

/-- The text without the first occurrence of a part; none where it does not occur. -/
def remove? (part : List Char) : List Char → Option (List Char)
  | [] => if part.isEmpty then some [] else none
  | c :: cs =>
    if part.isPrefixOf (c :: cs) then some ((c :: cs).drop part.length)
    else (remove? part cs).map (c :: ·)

/-- Whether the text holds a part, and what is left of it. -/
def take (part : String) (text : List Char) : Bool × List Char :=
  match remove? part.toList text with
  | some rest => (true, rest)
  | none => (false, text)

/-- The parts a unit names. The day of the week counts only where no other part down to the seconds
is named. -/
def ofName (unit : String) : TimeUnit :=
  -- the name of milliseconds ends in that of seconds
  let (milliseconds, text) := take "milliseconds" unit.toList
  let (seconds, text) := take "seconds" text
  let (minutes, text) := take "minutes" text
  let (hours, text) := take "hours" text
  let (quarter, text) := take "quarter" text
  let (month, text) := take "month" text
  let (year, text) := take "year" text
  let (date, text) := take "date" text
  let (day, _) := take "day" text
  let day := day && !(year || quarter || month || date || hours || minutes || seconds)
  { year, quarter, month, date, day, hours, minutes, seconds, milliseconds }

/-- The date built from the parts of another one, which `datum` reads; a part that is not kept has
its least value. -/
def expression (u : TimeUnit) (datum : String) : String :=
  let call (function : String) : String := function ++ "(" ++ datum ++ ")"
  let part (kept : Bool) (function : String) : String := if kept then call function else "0"
  let year := if u.year then call "year" else if u.day then "2006" else "0"
  let month :=
    if u.month then call "month" else if u.quarter then "(" ++ call "quarter" ++ "-1)*3" else "0"
  let date := if u.date then call "date" else if u.day then call "day" ++ "+1" else "1"
  "datetime(" ++ String.intercalate ", " [year, month, date, part u.hours "hours",
    part u.minutes "minutes", part u.seconds "seconds", part u.milliseconds "milliseconds"] ++ ")"

end TimeUnit

/-- The expression that cuts the date in a column down to a unit. -/
def timeUnitExpression (unit column : String) : String :=
  (TimeUnit.ofName unit).expression (accessor Scope.datum.name column)

end Trellis
