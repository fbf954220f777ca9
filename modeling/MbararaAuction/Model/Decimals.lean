import MbararaAuction.Model.Values

namespace MbararaAuction

/-- The zeros of the sets of decimal digits. -/
def decimalZeros : List Nat :=
  [48, 1632, 1776, 1984, 2406, 2534, 2662, 2790, 2918, 3046, 3174, 3302, 3430, 3558, 3664, 3792,
   3872, 4160, 4240, 6112, 6160, 6470, 6608, 6784, 6800, 6992, 7088, 7232, 7248, 42528, 43216,
   43264, 43472, 43504, 43600, 44016, 65296, 66720, 68912, 69734, 69872, 69942, 70096, 70384,
   70736, 70864, 71248, 71360, 71472, 71904, 72016, 72784, 73040, 73120, 73552, 92768, 92864,
   93008, 120782, 120792, 120802, 120812, 120822, 123200, 123632, 124144, 125264, 130032]

/-- The digit that a character stands for in some script. -/
def decimalDigit (c : Char) : Option Nat :=
  (decimalZeros.find? fun z => z ≤ c.toNat && c.toNat < z + 10).map fun z => c.toNat - z

/-- The characters that `Decimal` parses: no surrounding blanks, no underscores, every
digit as an ASCII one, and `?` where nothing else is known. -/
def decimalText (text : String) : List Char :=
  ((strip text).toList.filter (· ≠ '_')).map fun c =>
    if c.toNat < 128 then c
    else match decimalDigit c with
      | some n => Nat.digitChar n
      | none => '?'

/-- The number that ASCII digits write. -/
def digitsValue (digits : List Char) : Nat :=
  digits.foldl (fun n c => 10 * n + (c.toNat - '0'.toNat)) 0

/-- An optional sign, and what follows it. -/
def splitSign : List Char → Bool × List Char
  | '-' :: rest => (true, rest)
  | '+' :: rest => (false, rest)
  | rest => (false, rest)

/-- The digits after the point, where there is one, and what follows them. -/
def splitFraction : List Char → List Char × List Char
  | '.' :: rest => (rest.takeWhile Char.isDigit, rest.dropWhile Char.isDigit)
  | rest => ([], rest)

/-- The exponent at the end of a number. -/
def readExponent : List Char → Option Int
  | [] => some 0
  | e :: rest =>
    let (negative, digits) := splitSign rest
    if e.toLower = 'e' ∧ digits ≠ [] ∧ digits.all Char.isDigit then
      some (if negative then -(digitsValue digits : Int) else digitsValue digits)
    else none

/-- `MAX_EMAX`, and the least exponent of a subnormal at `MAX_PREC`. -/
def maxEmax : Int := 999999999999999999

def minEtiny : Int := -1999999999999999997

/-- An exact conversion does not clamp, round or overflow. -/
def withinLimits (coefficient : Nat) (exponent : Int) : Bool :=
  minEtiny ≤ exponent &&
    (if coefficient = 0 then exponent ≤ maxEmax
     else exponent + (toString coefficient).length - 1 ≤ maxEmax)

/-- The number of a text without its sign. -/
def readFinite (negative : Bool) (body : List Char) : Option Decimal := do
  let whole := body.takeWhile Char.isDigit
  let (fraction, rest) := splitFraction (body.dropWhile Char.isDigit)
  if whole ++ fraction = [] then none
  let power ← readExponent rest
  let coefficient := digitsValue (whole ++ fraction)
  let exponent := power - fraction.length
  if withinLimits coefficient exponent then some (.finite negative coefficient exponent) else none

/-- `Decimal(text)`, or nothing where it raises `InvalidOperation`. -/
def Decimal.ofText (text : String) : Option Decimal :=
  let (negative, body) := splitSign (decimalText text)
  match body.map Char.toLower with
  | ['i', 'n', 'f'] | ['i', 'n', 'f', 'i', 'n', 'i', 't', 'y'] => some (.infinity negative)
  | 'n' :: 'a' :: 'n' :: payload => if payload.all Char.isDigit then some (.nan false) else none
  | 's' :: 'n' :: 'a' :: 'n' :: payload => if payload.all Char.isDigit then some (.nan true) else none
  | _ => readFinite negative body

/-- `str` of a decimal. -/
def Decimal.text : Decimal → String
  | finite negative coefficient exponent => Decimal.str negative coefficient exponent
  | infinity negative => (if negative then "-" else "") ++ "Infinity"
  | nan signaling => if signaling then "sNaN" else "NaN"

end MbararaAuction
