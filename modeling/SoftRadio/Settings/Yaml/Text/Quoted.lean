import SoftRadio.Settings.Yaml.Text.Gap

/-!
Scalars in quotes.  In single quotes a quote is written twice; in double
quotes a backslash escapes.  Quoted scalars may go on over lines, which are
folded, but no document marker may stand inside.
-/

namespace SoftRadio.Yaml

inductive Quote where
  | single
  | double
  deriving DecidableEq, Repr

namespace Quote

def mark : Quote → Char
  | single => '\''
  | double => '"'

end Quote

/-- The characters that a backslash and one more stand for. -/
def escape? : Char → Option Char
  | '0' => some '\x00'
  | 'a' => some '\x07'
  | 'b' => some '\x08'
  | 't' => some '\t'
  | '\t' => some '\t'
  | 'n' => some '\n'
  | 'v' => some '\x0b'
  | 'f' => some '\x0c'
  | 'r' => some '\r'
  | 'e' => some '\x1b'
  | ' ' => some ' '
  | '"' => some '"'
  | '/' => some '/'
  | '\\' => some '\\'
  | 'N' => some (Char.ofNat 0x85)
  | '_' => some (Char.ofNat 0xa0)
  | 'L' => some (Char.ofNat 0x2028)
  | 'P' => some (Char.ofNat 0x2029)
  | _ => none

/-- The number of hexadecimal digits after an escape letter. -/
def escapeDigits : Char → Nat
  | 'x' => 2
  | 'u' => 4
  | 'U' => 8
  | _ => 0

/-- The character with a number in hexadecimal. -/
def hexChar? (digits : List Char) : Option Char := do
  let values ← digits.mapM hexValue?
  let n := values.foldl (fun n v => 16 * n + v) 0
  if n.isValidChar then some (Char.ofNat n) else none

/-- What an escape stands for, given the text after its backslash, and its length. -/
def readEscape : List Char → Option (Char × Nat)
  | [] => none
  | e :: cs =>
    let width := escapeDigits e
    if width = 0 then (escape? e).map fun c => (c, 1)
    else if cs.length < width then none
    else (hexChar? (cs.take width)).map fun c => (c, width + 1)

/-- Read a quoted scalar after its opening quote and `acc`, the part already
read, last character first. -/
def readQuotedFrom (q : Quote) : (fuel : Nat) → List Char → Cursor → Option (List Char × Cursor)
  | 0, _, _ => none
  | fuel + 1, acc, here =>
    match here.rest with
    | [] => none
    | c :: cs =>
      if here.atMarker then none
      else if isBlank c || isBreak c then do
        let (gap, here) ← Gap.empty.read 0 here.rest here.position
        readQuotedFrom q fuel (gap.text.reverse ++ acc) here
      else if c = q.mark then
        if q = .single && cs.head? = some q.mark then readQuotedFrom q fuel (c :: acc) (here.skip 2)
        else some (acc.reverse, here.skip 1)
      else if q = .double && c = '\\' then
        match cs with
        | [] => none
        | e :: _ =>
          if isBreak e then do
            let after := (here.skip 1).skipBreak
            let (gap, here) ← Gap.escaped.read 0 after.rest after.position
            readQuotedFrom q fuel (gap.text.reverse ++ acc) here
          else do
            let (c, width) ← readEscape cs
            readQuotedFrom q fuel (c :: acc) (here.skip (width + 1))
      else readQuotedFrom q fuel (c :: acc) (here.skip 1)

/-- Read a scalar that begins with a quote. -/
def readQuoted (q : Quote) (c : Cursor) : Option (String × Cursor) :=
  (readQuotedFrom q (c.rest.length + 1) [] (c.skip 1)).map fun (text, c) => (String.ofList text, c)

end SoftRadio.Yaml
