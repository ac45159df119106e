import SoftRadio.Fault

/-!
Room for lists whose length is announced.  A list takes the same number of
bytes for each element, and no list takes more than half of the bytes that
an address can tell apart; to ask for more ends the step in a crash.
`reserve_eq_ok_iff` says when there is room.
-/

namespace SoftRadio.Capacity

/-- The most bytes of one list, `2 ^ 63 - 1`. -/
def limit : Nat := 9223372036854775807

/-- Make room for `count` elements of `size` bytes each. -/
def reserve (count size : Nat) : Except Fault Unit :=
  if count * size ≤ limit then .ok () else crash "capacity overflow"

theorem reserve_eq_ok_iff (count size : Nat) :
    reserve count size = .ok () ↔ count * size ≤ limit := by
  unfold reserve
  split <;> simp_all [crash]

end SoftRadio.Capacity
