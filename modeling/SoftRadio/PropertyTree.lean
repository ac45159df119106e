import SoftRadio.Text.Blank
import SoftRadio.Eeprom

/-!
The property tree: typed values at slash-separated paths.  A path is known
by its components, the non-empty pieces between slashes, and is kept in one
written form.  The nodes are in the order of their paths.  A tree does not
care which types there are; those of a radio's own properties are the
instances of `PropertyType`.
-/

namespace SoftRadio

/-- Values that each have a type, and a name for every type. -/
class Typed (V : Type) (κ : outParam Type) where
  type : V → κ
  /-- The name that a mistyped access reports. -/
  name : κ → String

/-- What a property of a radio can hold. -/
inductive PropertyType where
  | text
  | word
  | integer
  | real
  | flag
  | dboard
  | address
  deriving DecidableEq, Repr, Inhabited

def PropertyType.name : PropertyType → String
  | text => "alloc::string::String"
  | word => "u32"
  | integer => "i64"
  | real => "f64"
  | flag => "bool"
  | dboard => "radiolib::core::types::eeprom::DboardEeprom"
  | address => "radiolib::core::device_addr::DeviceAddr"

inductive Property where
  | text (v : String)
  | word (v : Nat)
  | integer (v : Int)
  | real (v : Float)
  | flag (v : Bool)
  | dboard (v : DboardEeprom)
  | address (v : Address)
  deriving Inhabited

def Property.type : Property → PropertyType
  | text _ => .text
  | word _ => .word
  | integer _ => .integer
  | real _ => .real
  | flag _ => .flag
  | dboard _ => .dboard
  | address _ => .address

instance : Typed Property PropertyType := ⟨Property.type, PropertyType.name⟩

namespace TreePath

/-- The non-empty pieces between slashes. -/
def components (path : String) : List (List Char) :=
  (Text.splitOn '/' path.toList).filter (!·.isEmpty)

/-- The written form of a list of components. -/
def ofComponents (parts : List (List Char)) : String :=
  String.ofList ('/' :: List.intercalate ['/'] parts)

/-- The one written form of a path. -/
def normal (path : String) : String := ofComponents (components path)

/-- What follows `front`, if the text begins with it. -/
def after? : (front cs : List Char) → Option (List Char)
  | [], cs => some cs
  | _ :: _, [] => none
  | f :: front, c :: cs => if f = c then after? front cs else none

/-- The text before the first slash. -/
def head (cs : List Char) : List Char := cs.takeWhile (· != '/')

end TreePath

structure PropertyTree (V : Type := Property) where
  nodes : List (String × V)
  deriving Inhabited

namespace PropertyTree

variable {V κ : Type} [Typed V κ] [DecidableEq κ]

def empty : PropertyTree V := ⟨[]⟩

def find? (t : PropertyTree V) (path : String) : Option V :=
  (t.nodes.find? fun (p, _) => p = path).map Prod.snd

/-- Put a node where it belongs in the order of paths. -/
def insertNode (path : String) (v : V) : List (String × V) → List (String × V)
  | [] => [(path, v)]
  | (p, w) :: rest =>
    if path < p then (path, v) :: (p, w) :: rest else (p, w) :: insertNode path v rest

def replaceNode (path : String) (v : V) : List (String × V) → List (String × V)
  | [] => []
  | (p, w) :: rest => if p = path then (p, v) :: rest else (p, w) :: replaceNode path v rest

theorem find?_insertNode (path other : String) (v : V) (nodes : List (String × V))
    (h : nodes.find? (fun p => p.1 = path) = none) :
    ((insertNode path v nodes).find? fun p => p.1 = other).map Prod.snd =
      if other = path then some v else (nodes.find? fun p => p.1 = other).map Prod.snd := by
  induction nodes with
  | nil => by_cases ho : other = path <;> simp [insertNode, ho, eq_comm]
  | cons p rest ih =>
    obtain ⟨k, w⟩ := p
    have hk : k ≠ path := by
      intro hk
      simp [hk] at h
    have hrest : rest.find? (fun p => p.1 = path) = none := by
      simpa [hk] using h
    by_cases hlt : path < k
    · by_cases ho : other = path
      · simp [insertNode, hlt, ho]
      · simp [insertNode, hlt, ho, Ne.symm ho]
    · by_cases hko : k = other
      · subst hko
        simp [insertNode, hlt, hk]
      · simp [insertNode, hlt, hko, ih hrest]

theorem find?_replaceNode (path other : String) (v : V)
    (nodes : List (String × V)) :
    ((replaceNode path v nodes).find? fun p => p.1 = other).map Prod.snd =
      if other = path then ((nodes.find? fun p => p.1 = path).map fun _ => v)
      else (nodes.find? fun p => p.1 = other).map Prod.snd := by
  induction nodes with
  | nil => by_cases ho : other = path <;> simp [replaceNode, ho]
  | cons p rest ih =>
    obtain ⟨k, w⟩ := p
    by_cases hk : k = path
    · subst hk
      by_cases ho : other = k
      · simp [replaceNode, ho]
      · simp [replaceNode, ho, Ne.symm ho]
    · by_cases ho : other = path
      · subst ho
        simpa [replaceNode, hk] using ih
      · by_cases hko : k = other
        · subst hko
          simp [replaceNode, hk]
        · simpa [replaceNode, hk, hko, ho] using ih

/-- Add a node at a path that has none. -/
def create (t : PropertyTree V) (path : String) (v : V) : Except Fault (PropertyTree V) :=
  let path := TreePath.normal path
  match t.find? path with
  | some _ => refuse (.nodeExists path)
  | none => .ok ⟨insertNode path v t.nodes⟩

/-- The value at a path, which must have the type asked for. -/
def get (t : PropertyTree V) (path : String) (type : κ) : Except Fault V :=
  let path := TreePath.normal path
  match t.find? path with
  | none => refuse (.noPath path)
  | some v =>
    if Typed.type v = type then .ok v
    else refuse (.wrongPropertyType path (Typed.name (V := V) type))

/-- Change the value at a path to another of the same type. -/
def set (t : PropertyTree V) (path : String) (v : V) : Except Fault (PropertyTree V) :=
  let path := TreePath.normal path
  match t.find? path with
  | none => refuse (.noPath path)
  | some w =>
    if Typed.type w = Typed.type v then .ok ⟨replaceNode path v t.nodes⟩
    else refuse (.wrongPropertyType path (Typed.name (V := V) (Typed.type v)))

def contains (t : PropertyTree V) (path : String) : Bool := (t.find? (TreePath.normal path)).isSome

/-- One of every run of equal neighbours. -/
def dropRepeats : List (List Char) → List (List Char)
  | [] => []
  | [a] => [a]
  | a :: b :: rest => if a = b then dropRepeats (b :: rest) else a :: dropRepeats (b :: rest)

/-- The names right below a path, in the order of the nodes' paths. -/
def children (t : PropertyTree V) (path : String) : List String :=
  let normal := TreePath.normal path
  let front := if normal = "/" then ['/'] else normal.toList ++ ['/']
  let below := t.nodes.filterMap fun (p, _) => TreePath.after? front p.toList
  (dropRepeats ((below.map TreePath.head).filter (!·.isEmpty))).map String.ofList

/-- The text at a path. -/
def getText (t : PropertyTree) (path : String) : Except Fault String := do
  match ← t.get path .text with
  | .text v => return v
  | _ => refuse (.wrongPropertyType (TreePath.normal path) PropertyType.text.name)

def getDboard (t : PropertyTree) (path : String) : Except Fault DboardEeprom := do
  match ← t.get path .dboard with
  | .dboard v => return v
  | _ => refuse (.wrongPropertyType (TreePath.normal path) PropertyType.dboard.name)

def getAddress (t : PropertyTree) (path : String) : Except Fault Address := do
  match ← t.get path .address with
  | .address v => return v
  | _ => refuse (.wrongPropertyType (TreePath.normal path) PropertyType.address.name)

end PropertyTree

end SoftRadio
