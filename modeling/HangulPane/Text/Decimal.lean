namespace HangulPane
namespace Decimal

/-!
Decimal numerals, written and read.

Numbers are written without leading zeros and with a minus sign where one is
due.  Three readers differ in what they admit besides digits: a plain numeral
takes an optional sign, an index takes only a plus sign, and a grouped numeral
takes an optional sign and, after its first digit, underscores anywhere.  Only
the ten ASCII digits count as digits.
-/

def ofNat (value : Nat) : String :=
  value.repr

def ofInt : Int -> String
  | .ofNat value => ofNat value
  | .negSucc value => "-" ++ ofNat (value + 1)

def hexOfNat (value : Nat) : String :=
  String.ofList (Nat.toDigits 16 value)

def hexOfInt : Int -> String
  | .ofNat value => hexOfNat value
  | .negSucc value => "-" ++ hexOfNat (value + 1)

/-- The number a run of digits denotes; a numeral has at least one digit. -/
def digits? (text : List Char) : Option Nat :=
  if !text.isEmpty && text.all Char.isDigit then
    some (Nat.ofDigitChars 10 text 0)
  else
    none

/-- A numeral with an optional plus sign. -/
def index? : List Char -> Option Nat
  | '+' :: rest => digits? rest
  | text => digits? text

/-- A numeral with an optional sign, its magnitude read by the given reader. -/
def signed? (magnitude? : List Char -> Option Nat) : List Char -> Option Int
  | '-' :: rest => (magnitude? rest).map fun value => -(value : Int)
  | '+' :: rest => (magnitude? rest).map Int.ofNat
  | text => (magnitude? text).map Int.ofNat

/-- A numeral with an optional sign. -/
def int? (text : List Char) : Option Int :=
  signed? digits? text

/-- Digits among which underscores may stand, though not in front. -/
def groupedDigits? (text : List Char) : Option Nat :=
  if text.head? = some '_' then
    none
  else
    digits? (text.filter (· != '_'))

/-- A numeral with an optional sign, whose digits may be grouped by underscores. -/
def groupedInt? (text : List Char) : Option Int :=
  signed? groupedDigits? text

/-- Whether an integer is held by a signed word of sixty-four bits. -/
def fitsWord (value : Int) : Bool :=
  decide (Int64.minValue.toInt ≤ value ∧ value ≤ Int64.maxValue.toInt)

/-- A numeral with an optional sign whose value fits a signed word. -/
def word? (text : List Char) : Option Int64 :=
  match int? text with
  | some value => if fitsWord value then some (Int64.ofInt value) else none
  | none => none

end Decimal
end HangulPane
