import SoftRadio.Fault
import SoftRadio.Word

/-!
Whole seconds are 64-bit signed numbers.  A sum, difference or product that
does not fit ends the step in a crash.
-/

namespace SoftRadio.Checked

def add (a b : Int) : Except Fault Int :=
  if Word.fits (a + b) then .ok (a + b) else crash "attempt to add with overflow"

def sub (a b : Int) : Except Fault Int :=
  if Word.fits (a - b) then .ok (a - b) else crash "attempt to subtract with overflow"

def mul (a b : Int) : Except Fault Int :=
  if Word.fits (a * b) then .ok (a * b) else crash "attempt to multiply with overflow"

end SoftRadio.Checked
