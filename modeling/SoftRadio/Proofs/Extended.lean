import SoftRadio.Proofs.Exact

/-!
# Exact arithmetic with infinities

The rational numbers, two infinities, and what is no number.  Nothing is rounded; what the numbers
have in common with double precision is how infinities are computed with and compared.  There is
only one zero, which counts as positive where a number is divided by it.

* `Extended`: the numbers, and the instance of `Scalar`.
* `finite_add` and others: numbers that are finite are computed with as in exact arithmetic.
* `isFinite_abs_sub`: no distance from an infinity is finite.
-/

namespace SoftRadio

inductive Extended where
  | finite (x : ℚ)
  | infinite (negative : Bool)
  | nan
  deriving DecidableEq

namespace Extended

/-- A number as large as can be with the sign of another. -/
def ofSign (x : ℚ) : Extended := if x = 0 then nan else infinite (decide (x < 0))

def neg : Extended → Extended
  | finite x => finite (-x)
  | infinite negative => infinite !negative
  | nan => nan

def add : Extended → Extended → Extended
  | finite x, finite y => finite (x + y)
  | finite _, infinite negative => infinite negative
  | infinite negative, finite _ => infinite negative
  | infinite s, infinite t => if s = t then infinite s else nan
  | _, _ => nan

def mul : Extended → Extended → Extended
  | finite x, finite y => finite (x * y)
  | finite x, infinite negative | infinite negative, finite x =>
    if negative then neg (ofSign x) else ofSign x
  | infinite s, infinite t => infinite (s != t)
  | _, _ => nan

def div : Extended → Extended → Extended
  | finite x, finite y => if y = 0 then ofSign x else finite (x / y)
  | finite _, infinite _ => finite 0
  | infinite negative, finite y => infinite (negative != decide (y < 0))
  | _, _ => nan

def lt : Extended → Extended → Bool
  | finite x, finite y => decide (x < y)
  | finite _, infinite negative => !negative
  | infinite negative, finite _ => negative
  | infinite s, infinite t => s && !t
  | _, _ => false

def le : Extended → Extended → Bool
  | finite x, finite y => decide (x ≤ y)
  | finite _, infinite negative => !negative
  | infinite negative, finite _ => negative
  | infinite s, infinite t => s || !t
  | _, _ => false

/-- Apply a function of finite numbers; infinities stay what they are. -/
def map (f : ℚ → ℚ) : Extended → Extended
  | finite x => finite (f x)
  | x => x

def abs : Extended → Extended
  | infinite _ => infinite false
  | x => map (|·|) x

def toInt : Extended → Int
  | finite x => Scalar.toInt x
  | infinite negative => if negative then Word.least else Word.greatest
  | nan => 0

def isFinite : Extended → Bool
  | finite _ => true
  | _ => false

def text : Extended → String
  | finite x => Scalar.text x
  | infinite negative => if negative then "-inf" else "inf"
  | nan => "NaN"

def ofNumeral : Decimal.Numeral → Extended
  | .nan => nan
  | .infinite negative => infinite negative
  | .finite negative digits exponent =>
    let size : ℚ := digits * 10 ^ exponent
    finite (if negative then -size else size)

instance : Scalar Extended where
  add := add
  sub x y := add x (neg y)
  mul := mul
  div := div
  neg := neg
  ofInt n := finite n
  lt := lt
  le := le
  abs := abs
  floor := map Scalar.floor
  round := map Scalar.round
  toInt := toInt
  isNaN x := x = nan
  isFinite := isFinite
  infinity := infinite false
  nan := nan
  text := text
  read? s := (Decimal.read? s).map ofNumeral

/-! ## Finite numbers -/

variable (x y : ℚ)

@[simp] theorem finite_add : finite x + finite y = finite (x + y) := rfl

@[simp] theorem finite_sub : finite x - finite y = finite (x - y) := by
  rw [sub_eq_add_neg]
  rfl

@[simp] theorem finite_mul : finite x * finite y = finite (x * y) := rfl

@[simp] theorem neg_finite : -finite x = finite (-x) := rfl

variable {x y} in
theorem finite_div (h : y ≠ 0) : finite x / finite y = finite (x / y) := if_neg h

@[simp] theorem lt_finite : Scalar.lt (finite x) (finite y) = Scalar.lt x y := rfl

@[simp] theorem le_finite : Scalar.le (finite x) (finite y) = Scalar.le x y := rfl

@[simp] theorem abs_finite : Scalar.abs (finite x) = finite (Scalar.abs x) := rfl

@[simp] theorem round_finite : Scalar.round (finite x) = finite (Scalar.round x) := rfl

@[simp] theorem ofInt_eq (n : Int) : (Scalar.ofInt n : Extended) = finite n := rfl

@[simp] theorem isFinite_finite : Scalar.isFinite (finite x) = true := rfl

@[simp] theorem min_finite :
    Scalar.min (finite x) (finite y) = finite (Scalar.min x y) := by
  unfold Scalar.min
  show (if (false || Scalar.le y x) = true then finite y else finite x) =
    finite (if (false || Scalar.le y x) = true then y else x)
  exact (apply_ite finite _ _ _).symm

/-- A number that is finite is kept between finite bounds as in exact arithmetic. -/
theorem clamp_finite (low high : ℚ) : Scalar.clamp (finite x) (finite low) (finite high) =
    finite <$> Scalar.clamp x low high := by
  unfold Scalar.clamp
  rw [le_finite, lt_finite, lt_finite]
  by_cases horder : Scalar.le low high = true
  · rw [if_pos horder, if_pos horder, ← apply_ite finite, ← apply_ite finite]
    rfl
  · rw [if_neg horder, if_neg horder]
    rfl

/-! ## Infinities -/

/-- No distance from an infinity, or from what is no number, is finite. -/
theorem isFinite_abs_sub {x : Extended} (h : Scalar.isFinite x = false) (c : Extended) :
    Scalar.isFinite (Scalar.abs (c - x)) = false := by
  cases x with
  | finite x => cases h
  | nan => cases c <;> rfl
  | infinite negative =>
    cases c with
    | finite c => rfl
    | nan => rfl
    | infinite other => cases negative <;> cases other <;> rfl

end Extended

end SoftRadio
