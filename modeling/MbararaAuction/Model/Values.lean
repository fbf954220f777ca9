namespace MbararaAuction

/-- A `DecimalField(max_digits=14, decimal_places=2)` column, in hundredths. -/
abbrev Money := Int

/-- An aware datetime, in microseconds since 1970-01-01 00:00 UTC. -/
abbrev Time := Int

def minutes (n : Nat) : Time := 60000000 * n

def padded (n : Nat) : String := if n < 10 then "0" ++ toString n else toString n

/-- `str` of a money column as the database returns it: always two places. -/
def moneyStr (m : Money) : String :=
  (if m < 0 then "-" else "") ++ toString (m.natAbs / 100) ++ "." ++ padded (m.natAbs % 100)

/-- Python's `decimal.Decimal`. -/
inductive Decimal where
  | finite (negative : Bool) (coefficient : Nat) (exponent : Int)
  | infinity (negative : Bool)
  | nan (signaling : Bool)
deriving DecidableEq, Repr

/-- What callers may pass as an amount. -/
inductive Number where
  | int (n : Int)
  | bool (b : Bool)
  | decimal (d : Decimal)
  | other
deriving DecidableEq, Repr

/-- `Decimal(n)` for an integer. -/
def Decimal.ofInt (n : Int) : Decimal := .finite (n < 0) n.natAbs 0

/-- The value of a finite decimal in hundredths. Exact when the exponent is at
least -2, the only case in which it is asked for. -/
def cents (negative : Bool) (coefficient : Nat) (exponent : Int) : Int :=
  (if negative then -1 else 1) * (coefficient * Nat.pow 10 (exponent + 2).toNat : Nat)

/-- `str` of a finite decimal: plain digits where the exponent allows it,
scientific notation elsewhere. -/
def Decimal.str (negative : Bool) (coefficient : Nat) (exponent : Int) : String :=
  let digits := toString coefficient
  let leftDigits := exponent + digits.length
  let dotPlace := if exponent ≤ 0 ∧ -6 < leftDigits then leftDigits else 1
  let body :=
    if dotPlace ≤ 0 then "0." ++ String.ofList (List.replicate (-dotPlace).toNat '0') ++ digits
    else if (digits.length : Int) ≤ dotPlace then
      digits ++ String.ofList (List.replicate (dotPlace - digits.length).toNat '0')
    else
      String.ofList (digits.toList.take dotPlace.toNat) ++ "." ++
        String.ofList (digits.toList.drop dotPlace.toNat)
  let power := leftDigits - dotPlace
  let suffix := if power = 0 then "" else
    (if power < 0 then "E-" else "E+") ++ toString power.natAbs
  (if negative then "-" else "") ++ body ++ suffix

/-- The characters `str.strip` removes. -/
def isSpace (c : Char) : Bool :=
  let n := c.toNat
  (9 ≤ n && n ≤ 13) || (28 ≤ n && n ≤ 32) || n == 133 || n == 160 || n == 5760 ||
    (8192 ≤ n && n ≤ 8202) || n == 8232 || n == 8233 || n == 8239 || n == 8287 || n == 12288

def strip (s : String) : String :=
  String.ofList ((s.toList.dropWhile isSpace).reverse.dropWhile isSpace).reverse

/-- A date of the proleptic Gregorian calendar. -/
structure Date where
  year : Int
  month : Nat
  day : Nat
deriving DecidableEq, Repr

/-- The date that lies `days` days after 1970-01-01. -/
def dateOfDays (days : Int) : Date :=
  let z := days + 719468
  let era := z / 146097
  let doe := (z - era * 146097).toNat
  let yoe := (doe - doe / 1460 + doe / 36524 - doe / 146096) / 365
  let doy := doe - (365 * yoe + yoe / 4 - yoe / 100)
  let mp := (5 * doy + 2) / 153
  let month := if mp < 10 then mp + 3 else mp - 9
  { year := yoe + era * 400 + (if month ≤ 2 then 1 else 0), month := month,
    day := doy - (153 * mp + 2) / 5 + 1 }

/-- Africa/Kampala is three hours ahead of UTC all year. -/
def kampala (t : Time) : Time := t + 3 * 3600000000

def monthName (n : Nat) : String :=
  (["Jan", "Feb", "Mar", "Apr", "May", "Jun", "Jul", "Aug", "Sep", "Oct", "Nov", "Dec"][n - 1]?).getD ""

/-- `_fmt`: the local time as `%d %b %Y %H:%M`. -/
def fmt (t : Time) : String :=
  let seconds := kampala t / 1000000
  let date := dateOfDays (seconds / 86400)
  let minute := ((seconds % 86400) / 60).toNat
  padded date.day ++ " " ++ monthName date.month ++ " " ++ toString date.year ++ " " ++
    padded (minute / 60) ++ ":" ++ padded (minute % 60)

end MbararaAuction
