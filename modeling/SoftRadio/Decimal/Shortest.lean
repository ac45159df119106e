import SoftRadio.Binary64

/-!
The shortest decimal that identifies a binary number.  Around `m · 2 ^ e`
lies the interval of numbers that round to it.  Of the decimals with the
fewest digits in that interval the nearest is taken, the greater on a tie;
it is written in positional notation, never with an exponent.
-/

namespace SoftRadio.Decimal

/-- A decimal `digits · 10 ^ exponent`. -/
structure Number where
  digits : Nat
  exponent : Int
  deriving Repr, DecidableEq

def powerOfTen (k : Nat) : Nat := Nat.pow 10 k

def digitCount (n : Nat) : Nat := (Nat.toDigits 10 n).length

/-- A positive ratio of whole numbers. -/
structure Ratio where
  num : Nat
  den : Nat

/-- `n · 2 ^ e` as a ratio. -/
def Ratio.ofBinary (n : Nat) : Int → Ratio
  | .ofNat k => ⟨n <<< k, 1⟩
  | .negSucc k => ⟨n, 1 <<< (k + 1)⟩

/-- The ratio divided by `10 ^ e`. -/
def Ratio.scaled (r : Ratio) : Int → Ratio
  | .ofNat k => ⟨r.num, r.den * powerOfTen k⟩
  | .negSucc k => ⟨r.num * powerOfTen (k + 1), r.den⟩

/-- The exponent of the first decimal digit: `10 ^ p ≤ r < 10 ^ (p + 1)`. -/
def Ratio.magnitude (r : Ratio) : Int :=
  if r.den ≤ r.num then (digitCount (r.num / r.den) : Int) - 1
  else
    let j := digitCount (r.den / r.num) - 1
    if powerOfTen j * r.num = r.den then -(j : Int) else -(j : Int) - 1

/-- The numbers that round to `m · 2 ^ e`, in units of `2 ^ (e - 2)`.  Below
a power of two the neighbours are twice as close.  The ends belong to an
even mantissa. -/
structure Interval where
  low : Nat
  high : Nat
  closed : Bool

def Interval.around (m : Nat) (e : Int) : Interval :=
  ⟨if m = Binary64.leadingBit ∧ -1074 < e then 4 * m - 1 else 4 * m - 2, 4 * m + 2, m % 2 = 0⟩

/-- Whether `c · 10 ^ k` lies in the interval around `m · 2 ^ e`. -/
def Interval.holds (i : Interval) (e : Int) (c : Nat) (k : Int) : Bool :=
  let low := (Ratio.ofBinary i.low (e - 2)).scaled k
  let high := (Ratio.ofBinary i.high (e - 2)).scaled k
  if i.closed then low.num ≤ c * low.den && c * high.den ≤ high.num
  else low.num < c * low.den && c * high.den < high.num

/-- The decimal with `n` digits that is nearest to `m · 2 ^ e`, if it or its
neighbour on that grid lies in the interval. -/
def candidate (m : Nat) (e : Int) (n : Nat) : Option Number :=
  let value := Ratio.ofBinary m e
  let k := value.magnitude - n + 1
  let scaled := value.scaled k
  let c := scaled.num / scaled.den
  let rest := scaled.num % scaled.den
  let around := Interval.around m e
  let below := around.holds e c k
  let above := around.holds e (c + 1) k
  if below && (!above || 2 * rest < scaled.den) then some ⟨c, k⟩
  else if above then some (if c + 1 = powerOfTen n then ⟨powerOfTen (n - 1), k + 1⟩ else ⟨c + 1, k⟩)
  else none

/-- The shortest decimal for `m · 2 ^ e`; seventeen digits always suffice. -/
def shortest (m : Nat) (e : Int) : Number :=
  (((List.range 17).map (· + 1)).findSome? (candidate m e)).getD ⟨0, 0⟩

/-- The digits with the point at its place. -/
def Number.positional (d : Number) : String :=
  let digits := Nat.toDigits 10 d.digits
  String.ofList <| match d.exponent with
    | .ofNat k => digits ++ List.replicate k '0'
    | .negSucc k =>
      if k + 1 < digits.length then
        digits.take (digits.length - (k + 1)) ++ '.' :: digits.drop (digits.length - (k + 1))
      else '0' :: '.' :: (List.replicate (k + 1 - digits.length) '0' ++ digits)

end SoftRadio.Decimal
