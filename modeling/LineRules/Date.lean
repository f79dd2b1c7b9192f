import LineRules.Text

namespace LineRules

structure Date where
  year : Int
  month : Nat
  day : Nat
deriving DecidableEq, Repr

namespace Date

/-- Days from 1 March of year 0. Counting years from March puts the leap day last. -/
def dayNumber (d : Date) : Int :=
  let year := if d.month ≤ 2 then d.year - 1 else d.year
  let month := (d.month + 9) % 12
  365 * year + year / 4 - year / 100 + year / 400 + ((153 * month + 2) / 5 + d.day : Nat) - 1

def weekday (d : Date) : Nat :=
  ((d.dayNumber + 3) % 7).toNat

def weekdayNames : List String :=
  ["Sun", "Mon", "Tue", "Wed", "Thu", "Fri", "Sat"]

def monthNames : List String :=
  ["Jan", "Feb", "Mar", "Apr", "May", "Jun", "Jul", "Aug", "Sep", "Oct", "Nov", "Dec"]

def padded (width n : Nat) : Text :=
  (Nat.toDigits 10 n).leftpad width '0'

def yearText (year : Int) : Text :=
  if year < 0 then '-' :: padded 4 year.natAbs
  else if 9999 < year then '+' :: padded 4 year.natAbs
  else padded 4 year.natAbs

def stamp (d : Date) : Text :=
  (weekdayNames.getD d.weekday "").toList ++ " " ++ (monthNames.getD (d.month - 1) "").toList ++ " "
    ++ padded 2 d.day ++ " " ++ yearText d.year

end Date

end LineRules
