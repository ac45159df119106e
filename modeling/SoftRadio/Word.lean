/-!
Counts and sizes are kept in words of 64 bits, whole seconds in signed ones.
-/

namespace SoftRadio.Word

/-- Two to the power of 64: every count and every size is below it. -/
def limit : Nat := 18446744073709551616

/-- The least signed word. -/
def least : Int := -9223372036854775808

/-- The greatest signed word. -/
def greatest : Int := 9223372036854775807

def fits (n : Int) : Bool := least ≤ n && n ≤ greatest

/-- The nearest signed word. -/
def clamp (n : Int) : Int := max least (min greatest n)

theorem fits_clamp (n : Int) : fits (clamp n) = true := by
  unfold fits clamp least greatest
  simp only [Bool.and_eq_true, decide_eq_true_eq]
  omega

theorem clamp_of_fits (n : Int) (h : fits n = true) : clamp n = n := by
  unfold fits at h
  simp only [Bool.and_eq_true, decide_eq_true_eq] at h
  unfold clamp
  omega

end SoftRadio.Word
