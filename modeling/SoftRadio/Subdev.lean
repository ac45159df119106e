import SoftRadio.Text.Blank
import SoftRadio.Fault

/-!
Subdevice specifications: which daughterboard slot and which subdevice
stand behind each channel of a motherboard.  The markup is words such as
`A:0 B:0`, one for each channel.
-/

namespace SoftRadio

structure SubdevPair where
  slot : String
  subdevice : String
  deriving DecidableEq, Repr, Inhabited

structure SubdevSpec where
  pairs : List SubdevPair
  deriving DecidableEq, Repr, Inhabited

namespace SubdevSpec

/-- Read one word: a slot name and, after a colon, a subdevice name. -/
def parseToken? (token : List Char) : Option SubdevPair :=
  match Text.splitOnce ':' token with
  | none => if token.isEmpty then none else some ⟨String.ofList token, ""⟩
  | some (slot, subdevice) =>
    if slot.isEmpty || subdevice.contains ':' then none
    else some ⟨String.ofList slot, String.ofList subdevice⟩

def parseTokens : List (List Char) → Except Fault (List SubdevPair)
  | [] => .ok []
  | token :: rest => match parseToken? token with
    | none => refuse (.badSubdevToken (String.ofList token))
    | some pair => do
      let pairs ← parseTokens rest
      return pair :: pairs

def parse (markup : String) : Except Fault SubdevSpec := do
  let pairs ← parseTokens (Text.words markup.toList)
  return ⟨pairs⟩

def render (s : SubdevSpec) : String :=
  " ".intercalate (s.pairs.map fun p => p.slot ++ ":" ++ p.subdevice)

def size (s : SubdevSpec) : Nat := s.pairs.length

def isEmpty (s : SubdevSpec) : Bool := s.pairs.isEmpty

def pair (s : SubdevSpec) (index : Nat) : Except Fault SubdevPair :=
  match s.pairs[index]? with
  | some p => .ok p
  | none => refuse (.noSubdevPair index s.size)

/-- One line for each channel. -/
def listing (s : SubdevSpec) : String :=
  if s.isEmpty then "Empty Subdevice Specification"
  else "Subdevice Specification:\n" ++ String.join (s.pairs.zipIdx.map fun (p, i) =>
    s!"    Channel {i}: Daughterboard {p.slot}, Subdevice {p.subdevice}\n")

end SubdevSpec

end SoftRadio
