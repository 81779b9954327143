import ViewLint.Text.Basic

/-!
# Timestamps

A timestamp counts milliseconds from the start of 1970, in universal time. How it is written is told
by a layout, which shows how the reference time, the second of January 2006 at 15:04:05, would be
written. `Layout.elements` reads a layout: what spells a part of the reference time stands for that
part of the timestamp, and everything else for itself.
-/

namespace ViewLint

/-- Milliseconds from the start of 1970. -/
structure Timestamp where
  milliseconds : Int
  deriving DecidableEq

/-- A day of the calendar. -/
structure CalendarDay where
  year : Int
  month : Nat
  day : Nat
  deriving DecidableEq

namespace CalendarDay

/-- The day with a number, counted from the first of January 1970. Years are counted from March, so
that a leap day is the last of its year, in cycles of 400 years. -/
def ofNumber (number : Int) : CalendarDay :=
  let shifted := number + 719468
  let cycle := shifted.fdiv 146097
  let day := (shifted - cycle * 146097).toNat
  let year := (day - day / 1460 + day / 36524 - day / 146096) / 365
  let dayOfYear := day - (365 * year + year / 4 - year / 100)
  let month := (5 * dayOfYear + 2) / 153
  let monthNumber := if month < 10 then month + 3 else month - 9
  { year := year + cycle * 400 + (if monthNumber ≤ 2 then 1 else 0)
    month := monthNumber
    day := dayOfYear - (153 * month + 2) / 5 + 1 }

/-- Has the year a leap day? -/
def isLeap (year : Int) : Bool := year % 4 == 0 && (year % 100 != 0 || year % 400 == 0)

/-- The days before each month of a year without a leap day. -/
def daysBefore : List Nat := [0, 31, 59, 90, 120, 151, 181, 212, 243, 273, 304, 334]

/-- The number of a day in its year, from one. -/
def dayOfYear (d : CalendarDay) : Nat :=
  daysBefore.getD (d.month - 1) 0 + d.day + (if 2 < d.month ∧ isLeap d.year then 1 else 0)

end CalendarDay

namespace Timestamp

/-- The number of the day, counted from the first of January 1970. -/
def dayNumber (t : Timestamp) : Int := t.milliseconds.fdiv 86400000

/-- The milliseconds since the start of the day. -/
def inDay (t : Timestamp) : Nat := (t.milliseconds - t.dayNumber * 86400000).toNat

/-- The day of the calendar. -/
def day (t : Timestamp) : CalendarDay := .ofNumber t.dayNumber

/-- The day of the week, from Sunday as zero. -/
def weekday (t : Timestamp) : Nat := ((t.dayNumber + 4) % 7).toNat

def hour (t : Timestamp) : Nat := t.inDay / 3600000
def minute (t : Timestamp) : Nat := t.inDay / 60000 % 60
def second (t : Timestamp) : Nat := t.inDay / 1000 % 60
def nanosecond (t : Timestamp) : Nat := t.inDay % 1000 * 1000000

/-- The hour on a clock of twelve hours. -/
def clockHour (t : Timestamp) : Nat := if t.hour % 12 = 0 then 12 else t.hour % 12

end Timestamp

/-! ### Layouts -/

/-- How a number is filled up to a width. -/
inductive Fill where
  | plain
  | zeros (width : Nat)
  | blanks (width : Nat)
  deriving DecidableEq

/-- An element of a layout. -/
inductive LayoutElement where
  | literal (b : UInt8)
  | longYear
  | shortYear
  | month (fill : Fill)
  | monthName (long : Bool)
  | weekdayName (long : Bool)
  | day (fill : Fill)
  | dayOfYear (fill : Fill)
  | hour
  | clockHour (fill : Fill)
  | minute (fill : Fill)
  | second (fill : Fill)
  | halfOfDay (capital : Bool)
  /-- Decimals of the second behind a separator; with `trimmed`, without zeros at the end. -/
  | fraction (separator : UInt8) (digits : Nat) (trimmed : Bool)
  /-- The time zone, as a fixed text. -/
  | zone (written : String)
  deriving DecidableEq

namespace Layout

/-- The spellings of elements, the longer before the shorter where one starts another. -/
def spellings : List (String × LayoutElement) := [
  ("January", .monthName true), ("Monday", .weekdayName true), ("MST", .zone "UTC"),
  ("01", .month (.zeros 2)), ("02", .day (.zeros 2)), ("03", .clockHour (.zeros 2)),
  ("04", .minute (.zeros 2)), ("05", .second (.zeros 2)), ("06", .shortYear),
  ("002", .dayOfYear (.zeros 3)), ("15", .hour), ("1", .month .plain),
  ("2006", .longYear), ("2", .day .plain),
  ("_2", .day (.blanks 2)), ("__2", .dayOfYear (.blanks 3)),
  ("3", .clockHour .plain), ("4", .minute .plain), ("5", .second .plain),
  ("PM", .halfOfDay true), ("pm", .halfOfDay false),
  ("-070000", .zone "+000000"), ("-07:00:00", .zone "+00:00:00"), ("-0700", .zone "+0000"),
  ("-07:00", .zone "+00:00"), ("-07", .zone "+00"),
  ("Z070000", .zone "Z"), ("Z07:00:00", .zone "Z"), ("Z0700", .zone "Z"),
  ("Z07:00", .zone "Z"), ("Z07", .zone "Z")]

/-- The short names, which do not stand before a small letter. -/
def shortNames : List (String × LayoutElement) :=
  [("Jan", .monthName false), ("Mon", .weekdayName false)]

/-- The decimals of the second at the start of a layout, and the length of their spelling. -/
def fraction? : Text → Option (LayoutElement × Nat)
  | separator :: digit :: rest =>
    let run := 1 + (rest.takeWhile (· == digit)).length
    if (separator = Text.byte '.' ∨ separator = Text.byte ',') ∧ (digit = 48 ∨ digit = 57) ∧
        !((rest.drop (run - 1)).head?.any Text.isDigit) then
      some (.fraction separator run (digit == 57), 1 + run)
    else none
  | _ => none

/-- The element that is spelled at the start of a layout, and the length of its spelling. An
underscore before a long year stands for itself. -/
def element? (layout : Text) : Option (LayoutElement × Nat) :=
  if (Text.ofString "_2006").isPrefixOf layout then some (.literal (Text.byte '_'), 1)
  else match spellings.find? fun s => (Text.ofString s.1).isPrefixOf layout with
    | some (s, e) => some (e, s.length)
    | none =>
      match shortNames.find? fun s => (Text.ofString s.1).isPrefixOf layout &&
          !(layout.drop 3).head?.any fun b => 97 ≤ b && b ≤ 122 with
      | some (s, e) => some (e, s.length)
      | none => fraction? layout

/-- The elements of a layout of which the first `skip` bytes are passed over. -/
def elementsFrom : Nat → Text → List LayoutElement
  | _, [] => []
  | skip + 1, _ :: rest => elementsFrom skip rest
  | 0, b :: rest =>
    match element? (b :: rest) with
    | some (e, length) => e :: elementsFrom (length - 1) rest
    | none => .literal b :: elementsFrom 0 rest

/-- The elements of a layout. -/
def elements (layout : Text) : List LayoutElement := elementsFrom 0 layout

end Layout

/-- A natural number, filled up. -/
def Fill.write (fill : Fill) (n : Nat) : Text :=
  let digits := Text.ofNat n
  match fill with
  | .plain => digits
  | .zeros width => List.replicate (width - digits.length) 48 ++ digits
  | .blanks width => List.replicate (width - digits.length) 32 ++ digits

namespace Timestamp

def monthNames : List String := ["January", "February", "March", "April", "May", "June", "July",
  "August", "September", "October", "November", "December"]

def weekdayNames : List String :=
  ["Sunday", "Monday", "Tuesday", "Wednesday", "Thursday", "Friday", "Saturday"]

/-- A name in full, or its first three letters. -/
def nameText (long : Bool) (name : String) : Text :=
  if long then Text.ofString name else (Text.ofString name).take 3

/-- A year with at least four digits. -/
def yearText (year : Int) : Text :=
  (if year < 0 then [Text.byte '-'] else []) ++ (Fill.zeros 4).write year.natAbs

/-- The decimals of a second; there are nine of them at most. -/
def fractionText (nanosecond : Nat) (separator : UInt8) (digits : Nat) (trimmed : Bool) : Text :=
  let written := ((Fill.zeros 9).write nanosecond).take digits
  if trimmed then
    let kept := Text.trimEnd (· == 48) written
    if kept.isEmpty then [] else separator :: kept
  else separator :: written

/-- An element of a layout, as the timestamp gives it. -/
def element (t : Timestamp) : LayoutElement → Text
  | .literal b => [b]
  | .longYear => yearText t.day.year
  | .shortYear => (Fill.zeros 2).write (t.day.year.toNat % 100)
  | .month fill => fill.write t.day.month
  | .monthName long => nameText long (monthNames.getD (t.day.month - 1) "")
  | .weekdayName long => nameText long (weekdayNames.getD t.weekday "")
  | .day fill => fill.write t.day.day
  | .dayOfYear fill => fill.write t.day.dayOfYear
  | .hour => (Fill.zeros 2).write t.hour
  | .clockHour fill => fill.write t.clockHour
  | .minute fill => fill.write t.minute
  | .second fill => fill.write t.second
  | .halfOfDay capital =>
    Text.ofString (match decide (12 ≤ t.hour), capital with
      | true, true => "PM"
      | true, false => "pm"
      | false, true => "AM"
      | false, false => "am")
  | .fraction separator digits trimmed => fractionText t.nanosecond separator digits trimmed
  | .zone written => Text.ofString written

/-- The timestamp in a layout. -/
def format (t : Timestamp) (layout : Text) : Text := (Layout.elements layout).flatMap t.element

/-- The layout of log records: milliseconds, without a zone. -/
def defaultLayout : Text := Text.ofString "2006-01-02T15:04:05.000Z"

/-- The timestamp of a log record; an empty layout is the default one. -/
def stamp (t : Timestamp) (layout : Text) : Text :=
  t.format (if layout.isEmpty then defaultLayout else layout)

end Timestamp

end ViewLint
