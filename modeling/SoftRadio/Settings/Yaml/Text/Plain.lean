import SoftRadio.Settings.Yaml.Text.Gap

/-!
Scalars without quotes.  A plain scalar is a run of words.  It ends before
a colon with white space after it, before a comment, before a document
marker, and where a line is not indented enough; in brackets it ends before
the punctuation of brackets too.
-/

namespace SoftRadio.Yaml

/-- The punctuation of brackets. -/
def isFlowMark (c : Char) : Bool := ",[]\x7b\x7d".toList.contains c

/-- The characters that stand for something else at the front of a scalar. -/
def isIndicator (c : Char) : Bool :=
  "-?:,[]\x7b\x7d#&*!|>'\"%@".toList.contains c || c.toNat = 0x60

/-- Whether a plain scalar begins here. -/
def beginsPlain (inFlow : Bool) : List Char → Bool
  | [] => false
  | c :: cs =>
    if c = '-' then match cs with
      | [] => true
      | d :: _ => !isBlank d
    else if c = '?' || c = ':' then !inFlow && !beginsBlank cs
    else !(isBlank c || isBreak c || isIndicator c)

/-- The next word of a plain scalar, and what follows it.  In brackets a
colon may not be attached to what comes after it. -/
def plainWord (inFlow : Bool) : List Char → Option (List Char × List Char)
  | [] => some ([], [])
  | c :: cs =>
    if isBlank c || isBreak c then some ([], c :: cs)
    else if inFlow && c = ':' && cs.head?.any (fun d => isFlowMark d || d = '?') then none
    else if (c = ':' && beginsBlank cs) || (inFlow && isFlowMark c) then some ([], c :: cs)
    else (plainWord inFlow cs).map fun (word, rest) => (c :: word, rest)

/-- A plain scalar as it was read. -/
structure Plain where
  text : List Char
  /-- Whether a line ended after it. -/
  broken : Bool
  /-- Where reading goes on, after the white space that follows. -/
  next : Cursor

/-- Read on in a plain scalar, after a gap and `acc`, the part already read,
last character first. -/
def readPlainFrom (inFlow : Bool) (least : Nat) :
    (fuel : Nat) → List Char → Gap → Cursor → Option Plain
  | 0, _, _, _ => none
  | fuel + 1, acc, gap, here =>
    if here.atMarker || here.rest.head? = some '#' then some ⟨acc.reverse, gap.broken, here⟩
    else do
      let (word, rest) ← plainWord inFlow here.rest
      if word.isEmpty then return ⟨acc.reverse, gap.broken, here⟩
      let acc := word.reverse ++ (gap.text.reverse ++ acc)
      let here := here.skip word.length
      if rest.isEmpty || !beginsBlank rest then return ⟨acc.reverse, false, here⟩
      let (gap, here) ← Gap.empty.read least here.rest here.position
      if !inFlow && here.column < least then return ⟨acc.reverse, gap.broken, here⟩
      readPlainFrom inFlow least fuel acc gap here

/-- Read a plain scalar whose further lines stand at `least` or further in. -/
def readPlain (inFlow : Bool) (least : Nat) (here : Cursor) : Option Plain :=
  readPlainFrom inFlow least (here.rest.length + 1) [] Gap.empty here

end SoftRadio.Yaml
