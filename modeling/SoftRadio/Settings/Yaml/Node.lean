import SoftRadio.Settings.Yaml.Token

/-!
YAML documents as trees of scalars, sequences and mappings.  This is the
part of YAML that settings files use: mappings and sequences, as blocks or
in brackets, scalars plain, in quotes or of whole lines, comments, and
document markers.  One document is read; what it means is for the reader of
the tree to say.
-/

namespace SoftRadio.Yaml

inductive Node where
  /-- A scalar and whether it stood without quotes. -/
  | scalar (text : String) (plain : Bool)
  | sequence (items : List Node)
  | mapping (entries : List (Node × Node))
  deriving Repr, Inhabited

namespace Node

/-- What stands for a node that is left out. -/
def empty : Node := .scalar "" true

/-- Whether the next token is one of some that end what may be left out. -/
def isNext (ends : List Token) : List Token → Bool
  | [] => false
  | t :: _ => ends.contains t

mutual

/-- Read a node.  Blocks are not read in brackets.  A value may be a
sequence whose dashes are no further in than its key; it is not a block of
its own. -/
def read (inBlock afterKey : Bool) : (fuel : Nat) → List Token → Option (Node × List Token)
  | 0, _ => none
  | _, [] => none
  | fuel + 1, t :: rest =>
    match t with
    | .scalar text plain => some (.scalar text plain, rest)
    | .openFlowSequence => readFlowItems true [] fuel rest
    | .openFlowMapping => readFlowEntries true [] fuel rest
    | .openSequence => if inBlock then readItems [] fuel rest else none
    | .openMapping => if inBlock then readEntries [] fuel rest else none
    | .item => if afterKey then readFlatItems [] fuel (t :: rest) else none
    | _ => none

/-- Read a node that is left out before certain tokens. -/
def readOr (ends : List Token) (inBlock afterKey : Bool) :
    (fuel : Nat) → List Token → Option (Node × List Token)
  | 0, _ => none
  | fuel + 1, ts =>
    if isNext ends ts then some (empty, ts) else read inBlock afterKey fuel ts

/-- Read the items of a block. -/
def readItems (acc : List Node) : (fuel : Nat) → List Token → Option (Node × List Token)
  | 0, _ => none
  | fuel + 1, .item :: rest => do
    let (item, rest) ← readOr [.item, .closeBlock] true false fuel rest
    readItems (item :: acc) fuel rest
  | _, .closeBlock :: rest => some (.sequence acc.reverse, rest)
  | _, _ => none

/-- Read items that stand below a key without a block of their own. -/
def readFlatItems (acc : List Node) : (fuel : Nat) → List Token → Option (Node × List Token)
  | 0, _ => none
  | fuel + 1, .item :: rest => do
    let (item, rest) ← readOr [.item, .key, .value, .closeBlock] true false fuel rest
    readFlatItems (item :: acc) fuel rest
  | _, rest => some (.sequence acc.reverse, rest)

/-- Read the entries of a block. -/
def readEntries (acc : List (Node × Node)) : (fuel : Nat) → List Token → Option (Node × List Token)
  | 0, _ => none
  | fuel + 1, .key :: rest => do
    let ends := [.key, .value, .closeBlock]
    let (key, rest) ← readOr ends true true fuel rest
    let (value, rest) ← match rest with
      | .value :: rest => readOr ends true true fuel rest
      | _ => some (empty, rest)
    readEntries ((key, value) :: acc) fuel rest
  | _, .closeBlock :: rest => some (.mapping acc.reverse, rest)
  | _, _ => none

/-- Read the items in brackets.  A key among them makes a mapping of one entry. -/
def readFlowItems (first : Bool) (acc : List Node) :
    (fuel : Nat) → List Token → Option (Node × List Token)
  | 0, _ => none
  | _, .closeFlowSequence :: rest => some (.sequence acc.reverse, rest)
  | fuel + 1, ts => do
    let ts ← if first then some ts else match ts with
      | .comma :: rest => some rest
      | _ => none
    match ts with
    | .closeFlowSequence :: rest => return (.sequence acc.reverse, rest)
    | .key :: rest =>
      let (key, rest) ←
        if isNext [.value, .comma, .closeFlowSequence] rest then some (empty, rest.drop 1)
        else read false false fuel rest
      let (value, rest) ← match rest with
        | .value :: rest => readOr [.comma, .closeFlowSequence] false false fuel rest
        | _ => some (empty, rest)
      readFlowItems false (.mapping [(key, value)] :: acc) fuel rest
    | _ =>
      let (item, rest) ← read false false fuel ts
      readFlowItems false (item :: acc) fuel rest

/-- Read the entries in braces.  A node that is no key is an entry without a value. -/
def readFlowEntries (first : Bool) (acc : List (Node × Node)) :
    (fuel : Nat) → List Token → Option (Node × List Token)
  | 0, _ => none
  | _, .closeFlowMapping :: rest => some (.mapping acc.reverse, rest)
  | fuel + 1, ts => do
    let ts ← if first then some ts else match ts with
      | .comma :: rest => some rest
      | _ => none
    match ts with
    | .closeFlowMapping :: rest => return (.mapping acc.reverse, rest)
    | .key :: rest =>
      let (key, rest) ← readOr [.value, .comma, .closeFlowMapping] false false fuel rest
      let (value, rest) ← match rest with
        | .value :: rest => readOr [.comma, .closeFlowMapping] false false fuel rest
        | _ => some (empty, rest)
      readFlowEntries false ((key, value) :: acc) fuel rest
    | _ =>
      let (key, rest) ← read false false fuel ts
      readFlowEntries false ((key, empty) :: acc) fuel rest

end

/-- The only document of a text; a text without one stands for an empty node. -/
def ofTokens? (ts : List Token) : Option Node := do
  let fuel := 2 * ts.length + 2
  let (node, rest) ← match ts with
    | [] => some (empty, [])
    | .documentStart :: rest =>
      if rest.isEmpty || isNext [.documentStart, .documentEnd] rest then some (empty, rest)
      else read true false fuel rest
    | ts => read true false fuel ts
  if rest.all (· = .documentEnd) then return node else none

/-- Read a text of one document. -/
def ofText? (text : String) : Option Node := (Token.ofText? text).bind ofTokens?

end Node

end SoftRadio.Yaml
