import SoftRadio.Settings.Yaml.Cursor

/-!
White space between the words of a scalar.  On one line it stays as it is.
Over a line end it is folded: the blanks around the end go away, and a
single line feed counts as a space, while of several all but the first stay.
-/

namespace SoftRadio.Yaml

structure Gap where
  /-- The blanks, as long as the line goes on. -/
  blanks : List Char
  /-- Whether a line has ended. -/
  broken : Bool
  /-- The first line break, unless it was escaped. -/
  first : List Char
  /-- The line breaks after the first. -/
  more : List Char
  deriving DecidableEq, Repr, Inhabited

namespace Gap

def empty : Gap := ⟨[], false, [], []⟩

/-- The gap that begins with a line break that counts for nothing. -/
def escaped : Gap := ⟨[], true, [], []⟩

def addBlank (g : Gap) (c : Char) : Gap :=
  if g.broken then g else { g with blanks := g.blanks ++ [c] }

def addBreak (g : Gap) (c : Char) : Gap :=
  if g.broken then { g with more := g.more ++ [c] } else ⟨[], true, [c], []⟩

/-- What the gap stands for. -/
def text (g : Gap) : List Char :=
  if !g.broken then g.blanks
  else if g.first = ['\n'] then (if g.more.isEmpty then [' '] else g.more)
  else g.first ++ g.more

/-- Read white space to its end.  A tab that indents a line and stands left
of column `least` is refused. -/
def read (least : Nat) : Gap → List Char → Position → Option (Gap × Cursor)
  | g, [], p => some (g, ⟨[], p⟩)
  | g, '\r' :: '\n' :: cs, p => read least (g.addBreak '\n') cs (p.nextLine 2)
  | g, c :: cs, p =>
    if isBreak c then read least (g.addBreak (keptBreak c)) cs (p.nextLine c.utf8Size)
    else if isBlank c then
      if g.broken && c = '\t' && p.column < least then none
      else read least (g.addBlank c) cs (p.right [c])
    else some (g, ⟨c :: cs, p⟩)

/-- A gap on one line stands for its blanks. -/
theorem text_of_not_broken (g : Gap) (h : g.broken = false) : g.text = g.blanks := by
  simp [text, h]

/-- A single line feed stands for a space. -/
theorem text_addBreak_empty : (empty.addBreak '\n').text = [' '] := rfl

/-- Of several line feeds all but the first stay. -/
theorem text_addBreak_addBreak (g : Gap) (h : g.broken = false) (c : Char) :
    ((g.addBreak '\n').addBreak c).text = [c] := by
  simp [text, addBreak, h]

end Gap

end SoftRadio.Yaml
