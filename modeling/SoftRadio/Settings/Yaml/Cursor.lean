import SoftRadio.Text.Truncation

/-!
Reading positions in a YAML text, and the characters that make its layout.
Blocks are told by columns, and a key must end on the line it begins on and
before it is too long in bytes, so a position counts bytes, lines and columns.
-/

namespace SoftRadio.Yaml

/-- The characters that a text may hold. -/
def isAllowed (c : Char) : Bool :=
  let n := c.toNat
  n = 0x09 || n = 0x0a || n = 0x0d || (0x20 ≤ n && n ≤ 0x7e) || n = 0x85 ||
    (0xa0 ≤ n && n ≤ 0xfffd) || 0x10000 ≤ n

/-- Spaces and tabs. -/
def isBlank (c : Char) : Bool := c = ' ' || c = '\t'

/-- Line feed, carriage return, next line, line separator, paragraph separator. -/
def isBreak (c : Char) : Bool :=
  c = '\n' || c = '\r' || c.toNat = 0x85 || c.toNat = 0x2028 || c.toNat = 0x2029

/-- A line break as the text of a scalar keeps it: separators stay, all others
are line feeds. -/
def keptBreak (c : Char) : Char :=
  if c.toNat = 0x2028 || c.toNat = 0x2029 then c else '\n'

/-- Whether a text begins with white space or is at its end. -/
def beginsBlank : List Char → Bool
  | [] => true
  | c :: _ => isBlank c || isBreak c

/-- Whether a text begins with three times `mark` and nothing is attached to them. -/
def beginsMarker (mark : Char) : List Char → Bool
  | a :: b :: c :: cs => a = mark && b = mark && c = mark && beginsBlank cs
  | _ => false

def hexValue? (c : Char) : Option Nat :=
  if '0' ≤ c && c ≤ '9' then some (c.toNat - 48)
  else if 'a' ≤ c && c ≤ 'f' then some (c.toNat - 87)
  else if 'A' ≤ c && c ≤ 'F' then some (c.toNat - 55)
  else none

structure Position where
  /-- Bytes before, in UTF-8. -/
  index : Nat
  /-- Lines before. -/
  line : Nat
  /-- Characters before on the line. -/
  column : Nat
  deriving DecidableEq, Repr, Inhabited

namespace Position

def start : Position := ⟨0, 0, 0⟩

/-- Further on the same line, after `passed`. -/
def right (p : Position) (passed : List Char) : Position :=
  ⟨p.index + Text.byteCount passed, p.line, p.column + passed.length⟩

/-- At the front of the next line, after a break of `width` bytes. -/
def nextLine (p : Position) (width : Nat) : Position := ⟨p.index + width, p.line + 1, 0⟩

end Position

/-- What is left of a text, and where it stands. -/
structure Cursor where
  rest : List Char
  position : Position
  deriving Repr, Inhabited

namespace Cursor

def ofText (text : String) : Cursor := ⟨text.toList, Position.start⟩

def column (c : Cursor) : Nat := c.position.column

/-- Pass over characters of one line. -/
def skip (c : Cursor) (n : Nat) : Cursor := ⟨c.rest.drop n, c.position.right (c.rest.take n)⟩

/-- Pass over the characters of this line that `p` holds of. -/
def skipWhile (c : Cursor) (p : Char → Bool) : Cursor :=
  c.skip (c.rest.takeWhile fun x => p x && !isBreak x).length

/-- Pass over a comment, if there is one. -/
def skipComment (c : Cursor) : Cursor :=
  match c.rest with
  | '#' :: _ => c.skipWhile fun _ => true
  | _ => c

/-- Pass over a line break; a return with a feed after it is one break. -/
def skipBreak (c : Cursor) : Cursor :=
  match c.rest with
  | [] => c
  | '\r' :: '\n' :: cs => ⟨cs, c.position.nextLine 2⟩
  | d :: cs => ⟨cs, c.position.nextLine d.utf8Size⟩

/-- Whether a document marker stands here. -/
def atMarker (c : Cursor) : Bool :=
  c.column = 0 && (beginsMarker '-' c.rest || beginsMarker '.' c.rest)

end Cursor

end SoftRadio.Yaml
