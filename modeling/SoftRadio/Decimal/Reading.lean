import SoftRadio.Word

/-!
Reading numbers from text.

A real number is an optional sign and then either a name for infinity or
for no number at all, in any case of letters, or digits with at most one
point among them and an optional exponent.  At least one digit stands
before the exponent.  A natural number is digits with an optional plus.
-/

namespace SoftRadio.Decimal

/-- The number that a text denotes. -/
inductive Numeral where
  | nan
  | infinite (negative : Bool)
  | finite (negative : Bool) (digits : Nat) (exponent : Int)
  deriving Repr, DecidableEq

def isDigit (c : Char) : Bool := '0' ≤ c && c ≤ '9'

def digitValue (c : Char) : Nat := c.toNat - '0'.toNat

/-- The number that a row of digits spells. -/
def ofDigits (cs : List Char) : Nat := cs.foldl (fun n c => 10 * n + digitValue c) 0

/-- The digits in front, and the rest. -/
def spanDigits (cs : List Char) : List Char × List Char :=
  (cs.takeWhile isDigit, cs.dropWhile isDigit)

/-- Take an optional sign off; true for a minus. -/
def takeSign : List Char → Bool × List Char
  | '-' :: cs => (true, cs)
  | '+' :: cs => (false, cs)
  | cs => (false, cs)

/-- The value of what follows the mantissa: nothing, or a complete exponent. -/
def readExponent? : List Char → Option Int
  | [] => some 0
  | c :: cs =>
    if c = 'e' ∨ c = 'E' then
      let (negative, digits) := takeSign cs
      if digits.isEmpty || !digits.all isDigit then none
      else
        let n := ofDigits digits
        some (if negative then -(n : Int) else n)
    else none

def readUnsigned? (negative : Bool) (cs : List Char) : Option Numeral :=
  let (front, rest) := spanDigits cs
  let (back, rest) := match rest with
    | '.' :: more => spanDigits more
    | _ => ([], rest)
  if front.isEmpty && back.isEmpty then none
  else (readExponent? rest).map fun e =>
    .finite negative (ofDigits (front ++ back)) (e - back.length)

/-- Read a real number. -/
def read? (s : String) : Option Numeral :=
  let (negative, cs) := takeSign s.toList
  match String.ofList (cs.map Char.toLower) with
  | "nan" => some .nan
  | "inf" => some (.infinite negative)
  | "infinity" => some (.infinite negative)
  | _ => readUnsigned? negative cs

/-- The nearest double.  An exponent far out of range is not worked out. -/
def Numeral.toFloat : Numeral → Float
  | .nan => Float.ofBits 0x7ff8000000000000
  | .infinite negative => Float.ofBits (if negative then 0xfff0000000000000 else 0x7ff0000000000000)
  | .finite negative digits exponent =>
    let place := (Nat.toDigits 10 digits).length + exponent
    let size : Float :=
      if digits = 0 ∨ place < -400 then Float.ofBits 0
      else if 400 < place then Float.ofBits 0x7ff0000000000000
      else Float.ofScientific digits (exponent < 0) exponent.natAbs
    if negative then -size else size

/-- Read a natural number below `2 ^ 64`. -/
def readNat? (s : String) : Option Nat :=
  let digits := match s.toList with
    | '+' :: cs => cs
    | cs => cs
  if digits.isEmpty || !digits.all isDigit then none
  else
    let n := ofDigits digits
    if n < Word.limit then some n else none

end SoftRadio.Decimal
