import SoftRadio.Settings.Yaml.Cursor

/-!
Scalars made of whole lines.  A header says whether lines are folded, what
becomes of the line breaks at the end, and, if it has a digit, how far the
lines are indented; otherwise the first line that is not empty shows that.
-/

namespace SoftRadio.Yaml

/-- What becomes of the line breaks at the end: one stays, none, or all. -/
inductive Tail where
  | clip
  | strip
  | keep
  deriving DecidableEq, Repr

def Tail.ofMark? : Char → Option Tail
  | '+' => some .keep
  | '-' => some .strip
  | _ => none

structure BlockHeader where
  tail : Tail
  /-- How much further in the lines are; zero if the lines show it. -/
  deeper : Nat
  /-- The number of characters of the header. -/
  width : Nat
  deriving DecidableEq, Repr

namespace BlockHeader

/-- An indentation of 1 to 9. -/
def digit? (c : Char) : Option Nat := if '1' ≤ c && c ≤ '9' then some (c.toNat - 48) else none

/-- Read what follows the mark of the scalar. -/
def read? : List Char → Option BlockHeader
  | [] => some ⟨.clip, 0, 0⟩
  | c :: cs =>
    if c = '0' then none
    else match Tail.ofMark? c, digit? c with
      | some tail, _ =>
        if cs.head? = some '0' then none
        else match cs.head?.bind digit? with
          | some n => some ⟨tail, n, 2⟩
          | none => some ⟨tail, 0, 1⟩
      | none, some n => match cs.head?.bind Tail.ofMark? with
        | some tail => some ⟨tail, n, 2⟩
        | none => some ⟨.clip, n, 1⟩
      | none, none => some ⟨.clip, 0, 0⟩

end BlockHeader

/-- Empty lines: their breaks, the greatest column reached, and what follows. -/
structure EmptyLines where
  breaks : List Char
  deepest : Nat
  next : Cursor

/-- Read empty lines and the indentation after them, up to `indent`, or as
far as it goes if `indent` is zero.  Tabs do not indent. -/
def EmptyLines.read? (indent : Nat) :
    List Char → Position → (breaks : List Char) → (deepest : Nat) → Option EmptyLines
  | [], p, breaks, deepest => some ⟨breaks, max deepest p.column, ⟨[], p⟩⟩
  | '\r' :: '\n' :: cs, p, breaks, deepest =>
    read? indent cs (p.nextLine 2) (breaks ++ ['\n']) (max deepest p.column)
  | c :: cs, p, breaks, deepest =>
    let inside := indent = 0 || p.column < indent
    if c = ' ' && inside then read? indent cs (p.right [c]) breaks deepest
    else if c = '\t' && inside then none
    else if isBreak c then
      read? indent cs (p.nextLine c.utf8Size) (breaks ++ [keptBreak c]) (max deepest p.column)
    else some ⟨breaks, max deepest p.column, ⟨c :: cs, p⟩⟩

/-- What was read of the lines of a scalar. -/
structure BlockLines where
  text : List Char
  /-- The break after the last line. -/
  last : List Char
  /-- The breaks of the empty lines after it. -/
  empties : List Char
  next : Cursor

/-- Read the lines at `indent`.  In a folded scalar a line feed between two
lines that do not begin with a blank is folded. -/
def readLines (folded : Bool) (indent : Nat) :
    (fuel : Nat) → (afterBlank : Bool) → BlockLines → Option BlockLines
  | 0, _, _ => none
  | fuel + 1, afterBlank, b =>
    match b.next.rest with
    | [] => some b
    | c :: _ =>
      if b.next.column ≠ indent then some b
      else do
        let joint :=
          if folded && b.last = ['\n'] && !afterBlank && !isBlank c then
            if b.empties.isEmpty then [' '] else []
          else b.last
        let line := b.next.rest.takeWhile (!isBreak ·)
        let after := b.next.skip line.length
        let last := match after.rest with
          | [] => []
          | d :: _ => [keptBreak d]
        let after := after.skipBreak
        let lines ← EmptyLines.read? indent after.rest after.position [] 0
        readLines folded indent fuel (isBlank c)
          ⟨b.text ++ joint ++ b.empties ++ line, last, lines.breaks, lines.next⟩

/-- Read a scalar after its mark; `least` is the least indentation that its lines may have. -/
def readBlockText (folded : Bool) (least : Nat) (here : Cursor) : Option (String × Cursor) := do
  let header ← BlockHeader.read? here.rest
  let here := ((here.skip header.width).skipWhile isBlank).skipComment
  if !(here.rest.isEmpty || beginsBlank here.rest) then none
  let here := here.skipBreak
  let indent := if header.deeper = 0 then 0 else (least - 1) + header.deeper
  let lines ← EmptyLines.read? indent here.rest here.position [] 0
  let indent := if indent = 0 then max (max lines.deepest least) 1 else indent
  let b ← readLines folded indent (here.rest.length + 1) false ⟨[], [], lines.breaks, lines.next⟩
  let tail := match header.tail with
    | .strip => []
    | .clip => b.last
    | .keep => b.last ++ b.empties
  return (String.ofList (b.text ++ tail), b.next)

end SoftRadio.Yaml
