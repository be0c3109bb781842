import Reckon.Power

/-!
# The history file of the console

A history file holds one line a row. On reading, a row without a line end is ignored, and so are
empty rows; a carriage return in front of the line end belongs to it, and a row is cut at its first
zero byte. When the file starts with a time stamp, a hash and a digit, all rows that are time stamps
are ignored too. On writing, only the last rows are kept.
-/

namespace Reckon

namespace History

/-- A row of bytes. -/
abbrev Row := List UInt8

/-- The rows that have a line end. `current` holds the bytes of the row so far, the last one
first. -/
def endedRows (current : Row) : List UInt8 → List Row
  | [] => []
  | b :: rest =>
    if b = 10 then current.reverse :: endedRows [] rest else endedRows (b :: current) rest

/-- A row without the carriage return at its end, cut at its first zero byte. -/
def cleanRow (row : Row) : Row :=
  let body := if row.getLast? = some 13 then row.dropLast else row
  body.takeWhile (· != 0)

/-- The bytes start with a hash and a digit. -/
def isStamp : List UInt8 → Bool
  | 35 :: d :: _ => 48 ≤ d && d ≤ 57
  | _ => false

/-- The rows of a history file. -/
def read (bytes : List UInt8) : List Row :=
  let rows := ((endedRows [] bytes).map cleanRow).filter (!·.isEmpty)
  if isStamp bytes then rows.filter (!isStamp ·) else rows

/-- The last rows, as many as `limit` says, or all when it is negative. -/
def keepLast (limit : Int) (rows : List Row) : List Row :=
  if limit < 0 then rows else rows.drop (rows.length - limit.toNat)

/-- The bytes of a history file with the last of some rows. -/
def write (limit : Int) (rows : List Row) : List UInt8 :=
  (keepLast limit rows).flatMap (· ++ [10])

/-- The limits that can be written: those of a 32-bit word. -/
def isWritable (limit : Int) : Bool := -(twoPow 31 : Int) ≤ limit && limit < twoPow 31

end History

end Reckon
