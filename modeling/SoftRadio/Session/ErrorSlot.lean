import SoftRadio.Fault

/-!
The text that each handle keeps of its latest call: empty before the first
one, `None` after a success, and after a failure its message.
-/

namespace SoftRadio.ErrorSlot

def initial : String := ""

/-- What a call with this result leaves. -/
def ofResult {β : Type} : Except Error β → String
  | .ok _ => "None"
  | .error e => e.message

end SoftRadio.ErrorSlot
