import SoftRadio.Settings.Yaml.Text.Quoted
import SoftRadio.Settings.Yaml.Text.Plain
import SoftRadio.Settings.Yaml.Text.Block

/-!
The tokens of a YAML text.  Blocks have no brackets of their own: they open
where a dash or a key stands further in than the block around, and close
where a line stands further out, and the tokens say so.  A key is known
only by the colon after it, so every place where one may begin is kept in
mind until the colon comes or can come no more.
-/

namespace SoftRadio.Yaml

inductive Token where
  /-- Three dashes. -/
  | documentStart
  /-- Three points. -/
  | documentEnd
  | openSequence
  | openMapping
  | closeBlock
  | openFlowSequence
  | closeFlowSequence
  | openFlowMapping
  | closeFlowMapping
  /-- The dash of an item. -/
  | item
  /-- The comma of a bracket. -/
  | comma
  | key
  | value
  /-- A scalar and whether it stood without quotes. -/
  | scalar (text : String) (plain : Bool)
  deriving DecidableEq, Repr, Inhabited

/-- A place where a key may have begun. -/
structure KeyPlace where
  position : Position
  /-- The number of tokens before it. -/
  number : Nat
  /-- Whether nothing else can stand there. -/
  required : Bool
  deriving DecidableEq, Repr

/-- The bytes that a key may have, with the white space after it. -/
def KeyPlace.reach : Nat := 1024

/-- Whether a colon at `p` can no longer end a key from here. -/
def KeyPlace.isStale (k : KeyPlace) (p : Position) : Bool :=
  k.position.line < p.line || k.position.index + KeyPlace.reach < p.index

/-- What is known of a text up to a position. -/
structure Scan where
  next : Cursor
  /-- The columns of the open blocks, innermost first. -/
  blocks : List Nat
  /-- Whether a key, or an item of a block, may begin here. -/
  fresh : Bool
  /-- The place of a key, in the innermost bracket. -/
  place : Option KeyPlace
  /-- The places of keys in the brackets around. -/
  outer : List (Option KeyPlace)
  /-- The tokens so far, last one first. -/
  tokens : List Token
  deriving Repr

namespace Scan

def start (text : String) : Scan := ⟨Cursor.ofText text, [], true, none, [], []⟩

def inFlow (s : Scan) : Bool := !s.outer.isEmpty

/-- The least column of what belongs to the innermost block. -/
def least (s : Scan) : Nat :=
  match s.blocks with
  | [] => 0
  | column :: _ => column + 1

def emit (s : Scan) (t : Token) : Scan := { s with tokens := t :: s.tokens }

/-- Pass over the `width` characters of a token. -/
def take (s : Scan) (t : Token) (width : Nat) : Scan :=
  { s.emit t with next := s.next.skip width }

/-- Put a token after the first `number`. -/
def emitAt (s : Scan) (number : Nat) (t : Token) : Scan :=
  { s with tokens := s.tokens.insertIdx (s.tokens.length - number) t }

/-- Open a block at a column, after the first `number` tokens, if the column
is further in than the blocks that are open.  There are no blocks in brackets. -/
def openBlock (s : Scan) (column number : Nat) (t : Token) : Scan :=
  if s.inFlow || column < s.least then s
  else { s.emitAt number t with blocks := column :: s.blocks }

/-- Close the blocks that `ends` holds of the columns of. -/
def closeBlocks (s : Scan) (ends : Nat → Bool) : Scan :=
  if s.inFlow then s
  else
    let closed := s.blocks.takeWhile ends
    { s with
      blocks := s.blocks.drop closed.length
      tokens := List.replicate closed.length .closeBlock ++ s.tokens }

/-- Give up a place where no key began, unless one had to. -/
def drop? : Option KeyPlace → Option (Option KeyPlace)
  | some k => if k.required then none else some none
  | none => some none

def dropPlace (s : Scan) : Option Scan := do
  return { s with place := ← drop? s.place }

/-- Give up the places from which a key would be too long by now. -/
def dropStale (s : Scan) : Option Scan := do
  let refresh : Option KeyPlace → Option (Option KeyPlace)
    | some k => if k.isStale s.next.position then drop? (some k) else some (some k)
    | none => some none
  return { s with place := ← refresh s.place, outer := ← s.outer.mapM refresh }

/-- Keep in mind that a key may begin here. -/
def savePlace (s : Scan) : Option Scan :=
  if s.fresh then do
    let s ← s.dropPlace
    let required := !s.inFlow && s.blocks.head? = some s.next.column
    return { s with place := some ⟨s.next.position, s.tokens.length, required⟩ }
  else some s

/-- Pass over white space and comments up to the next token.  A mark of
byte order may stand at the front of a line.  A tab may not stand where a
block may begin. -/
def skipToToken : (fuel : Nat) → Scan → Option Scan
  | 0, _ => none
  | fuel + 1, s =>
    let next := if s.next.column = 0 && s.next.rest.head? = some (Char.ofNat 0xfeff)
      then s.next.skip 1 else s.next
    let tabs := s.inFlow || !s.fresh
    let next := (next.skipWhile fun c => c = ' ' || (tabs && c = '\t')).skipComment
    match next.rest with
    | [] => some { s with next := next }
    | c :: _ =>
      if isBreak c then
        skipToToken fuel { s with next := next.skipBreak, fresh := s.fresh || !s.inFlow }
      else some { s with next := next }

/-- A document marker closes all blocks. -/
def marker (s : Scan) (t : Token) : Option Scan := do
  let s ← (s.closeBlocks fun _ => true).dropPlace
  return { s with fresh := false }.take t 3

/-- A bracket opens; all of it may be a key. -/
def openFlow (s : Scan) (t : Token) : Option Scan := do
  let s ← s.savePlace
  return { s with outer := s.place :: s.outer, place := none, fresh := true }.take t 1

def closeFlow (s : Scan) (t : Token) : Option Scan := do
  let s ← s.dropPlace
  let s := match s.outer with
    | [] => s
    | place :: outer => { s with place := place, outer := outer }
  return { s with fresh := false }.take t 1

def comma (s : Scan) : Option Scan := do
  let s ← s.dropPlace
  return { s with fresh := true }.take .comma 1

/-- A dash: an item of a block, which opens one if it stands further in. -/
def item (s : Scan) : Option Scan :=
  if !s.inFlow && !s.fresh then none
  else do
    let s ← (s.openBlock s.next.column s.tokens.length .openSequence).dropPlace
    return { s with fresh := true }.take .item 1

/-- A question mark: a key that need not be short. -/
def longKey (s : Scan) : Option Scan :=
  if !s.inFlow && !s.fresh then none
  else do
    let s ← (s.openBlock s.next.column s.tokens.length .openMapping).dropPlace
    return { s with fresh := !s.inFlow }.take .key 1

/-- A colon: what stands since the place of the key, if there is one, is a key. -/
def value (s : Scan) : Option Scan :=
  match s.place with
  | some k =>
    let s := (s.emitAt k.number .key).openBlock k.position.column k.number .openMapping
    some ({ s with place := none, fresh := false }.take .value 1)
  | none =>
    if !s.inFlow && !s.fresh then none
    else
      let s := s.openBlock s.next.column s.tokens.length .openMapping
      some ({ s with fresh := !s.inFlow }.take .value 1)

def quoted (s : Scan) (q : Quote) : Option Scan := do
  let s ← s.savePlace
  let (text, next) ← readQuoted q s.next
  return { s with next := next, fresh := false }.emit (.scalar text false)

/-- After a plain scalar that a line end follows a key may begin. -/
def plain (s : Scan) : Option Scan := do
  let s ← s.savePlace
  let p ← readPlain s.inFlow s.least s.next
  return { s with next := p.next, fresh := p.broken }.emit (.scalar (String.ofList p.text) true)

def blockText (s : Scan) (folded : Bool) : Option Scan := do
  let s ← s.dropPlace
  let (text, next) ← readBlockText folded s.least (s.next.skip 1)
  return { s with next := next, fresh := true }.emit (.scalar text false)

/-- Read the token that begins here. -/
def token (s : Scan) (c : Char) (cs : List Char) : Option Scan :=
  let apart := beginsBlank cs
  if s.next.column = 0 && c = '%' then none
  else if s.next.column = 0 && beginsMarker '-' s.next.rest then s.marker .documentStart
  else if s.next.column = 0 && beginsMarker '.' s.next.rest then s.marker .documentEnd
  else if c = '[' then s.openFlow .openFlowSequence
  else if c = '\x7b' then s.openFlow .openFlowMapping
  else if c = ']' then s.closeFlow .closeFlowSequence
  else if c = '\x7d' then s.closeFlow .closeFlowMapping
  else if c = ',' then s.comma
  else if c = '-' && apart then s.item
  else if c = '?' && (s.inFlow || apart) then s.longKey
  else if c = ':' && (s.inFlow || apart) then s.value
  else if c = '|' && !s.inFlow then s.blockText false
  else if c = '>' && !s.inFlow then s.blockText true
  else if c = '\'' then s.quoted .single
  else if c = '"' then s.quoted .double
  else if beginsPlain s.inFlow (c :: cs) then s.plain
  else none

/-- Read all tokens. -/
def run : (fuel : Nat) → Scan → Option (List Token)
  | 0, _ => none
  | fuel + 1, s => do
    let s ← (← s.skipToToken (fuel + 1)).dropStale
    match s.next.rest with
    | [] =>
      let s ← (s.closeBlocks fun _ => true).dropPlace
      return s.tokens.reverse
    | c :: cs =>
      let s := s.closeBlocks (s.next.column < ·)
      run fuel (← s.token c cs)

end Scan

/-- The tokens of a text; there are none if it holds a character that no text may hold. -/
def Token.ofText? (text : String) : Option (List Token) :=
  if text.toList.all isAllowed then (Scan.start text).run (text.length + 1) else none

end SoftRadio.Yaml
