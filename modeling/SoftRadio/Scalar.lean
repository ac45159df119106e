import SoftRadio.Binary64
import SoftRadio.Decimal.Shortest
import SoftRadio.Decimal.Reading
import SoftRadio.Fault

/-!
The numbers that rates, frequencies, gains and times are measured in.
Everything that computes with them takes the arithmetic as a parameter, so
that one definition serves double precision, which is what runs, and exact
arithmetic, in which its laws are stated.
-/

namespace SoftRadio

/-- An arithmetic: the four operations, comparisons that are false for
what is no number, rounding, and the passage from and to text. -/
class Scalar (α : Type) extends Add α, Sub α, Mul α, Div α, Neg α where
  ofInt : Int → α
  /-- Strictly less. -/
  lt : α → α → Bool
  le : α → α → Bool
  abs : α → α
  /-- The greatest whole number that is not greater. -/
  floor : α → α
  /-- The nearest whole number, halves away from zero. -/
  round : α → α
  /-- The whole part, clamped to 64 bits. -/
  toInt : α → Int
  isNaN : α → Bool
  isFinite : α → Bool
  /-- Greater than every other number, where there is such a one. -/
  infinity : α
  /-- What a text that spells no number reads as. -/
  nan : α
  text : α → String
  read? : String → Option α

namespace Scalar

variable {α : Type} [Scalar α]

instance : Inhabited α := ⟨ofInt 0⟩

/-- Equality of numbers; no number is not equal to itself. -/
def eq (a b : α) : Bool := le a b && le b a

/-- The ratio of two whole numbers. -/
def ratio (a b : Int) : α := ofInt a / ofInt b

/-- The lesser, of equal ones the second; what is no number is passed over. -/
def min (a b : α) : α := if isNaN a || le b a then b else a

/-- The greater, of equal ones the second; what is no number is passed over. -/
def max (a b : α) : α := if isNaN a || le a b then b else a

/-- The nearest number between the bounds.  Bounds out of order, or no
numbers, are a mistake of the caller's and crash. -/
def clamp (x low high : α) : Except Fault α :=
  if le low high then .ok (if lt x low then low else if lt high x then high else x)
  else crash "min > max, or either was NaN"

/-- The sum, from the left. -/
def sum (xs : List α) : α := xs.foldl (· + ·) (ofInt 0)

end Scalar

/-- The text of a double: the shortest digits that read back, positional. -/
def Binary64.text (x : Float) : String :=
  match Binary64.view x with
  | .nan => "NaN"
  | .infinite negative => if negative then "-inf" else "inf"
  | .finite ⟨negative, m, e⟩ =>
    let size := if m = 0 then "0" else (Decimal.shortest m e).positional
    if negative then "-" ++ size else size

/-- Double precision. -/
instance : Scalar Float where
  ofInt := Binary64.ofInt
  lt a b := a < b
  le a b := a ≤ b
  abs := Float.abs
  floor := Binary64.floor
  round := Binary64.round
  toInt := Binary64.toWord
  isNaN := Float.isNaN
  isFinite := Float.isFinite
  infinity := Float.ofBits 0x7ff0000000000000
  nan := Float.ofBits 0x7ff8000000000000
  text := Binary64.text
  read? s := (Decimal.read? s).map Decimal.Numeral.toFloat

end SoftRadio
