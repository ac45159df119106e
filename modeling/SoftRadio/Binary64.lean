import SoftRadio.Word

/-!
Double-precision numbers as a sign, a whole number and a power of two.
Rounding to whole numbers is done here on those parts, in exact integer
arithmetic, so that its results are plain functions of the bits.
-/

namespace SoftRadio.Binary64

/-- The value `± mantissa · 2 ^ exponent`. -/
structure Parts where
  negative : Bool
  mantissa : Nat
  exponent : Int
  deriving Repr, DecidableEq

/-- What the 64 bits of a double stand for. -/
inductive View where
  | nan
  | infinite (negative : Bool)
  | finite (parts : Parts)
  deriving Repr, DecidableEq

/-- The bit in front of the fraction of a number that is not tiny, `2 ^ 52`. -/
def leadingBit : Nat := 4503599627370496

def view (x : Float) : View :=
  let bits := x.toBits.toNat
  let negative := bits >>> 63 == 1
  let field := (bits >>> 52) % 2048
  let fraction := bits % leadingBit
  if field = 2047 then
    if fraction = 0 then .infinite negative else .nan
  else if field = 0 then .finite ⟨negative, fraction, -1074⟩
  else .finite ⟨negative, fraction + leadingBit, Int.ofNat field - 1075⟩

/-- The whole number `n` with the sign given, zero included. -/
def whole (negative : Bool) (n : Nat) : Float :=
  if negative then -(Float.ofNat n) else Float.ofNat n

/-- The greatest whole number that is not greater. -/
def floor (x : Float) : Float :=
  match view x with
  | .finite ⟨negative, m, .negSucc k⟩ =>
    let q := m >>> (k + 1)
    if negative && q <<< (k + 1) != m then whole true (q + 1) else whole negative q
  | _ => x

/-- The nearest whole number, halves away from zero. -/
def round (x : Float) : Float :=
  match view x with
  | .finite ⟨negative, m, .negSucc k⟩ => whole negative ((m + (1 <<< k)) >>> (k + 1))
  | _ => x

/-- The whole part, clamped to a signed word; zero for what is no number. -/
def toWord (x : Float) : Int :=
  match view x with
  | .nan => 0
  | .infinite negative => if negative then Word.least else Word.greatest
  | .finite ⟨negative, m, e⟩ =>
    let size : Nat := match e with
      | .ofNat k => if m = 0 then 0 else if 64 ≤ k then Word.limit else m <<< k
      | .negSucc k => m >>> (k + 1)
    Word.clamp (if negative then -(size : Int) else size)

/-- The whole number nearest to a number of 64 bits, ties to even. -/
def ofInt (n : Int) : Float := Float.ofInt n

end SoftRadio.Binary64
