import VectorGraph.Yaml.Scalar
import VectorGraph.Yaml.Tag

/-!
The tokens of a YAML text. Blocks are told by indentation, so their starts and ends are tokens of their own;
and what turns out to be a key once its colon is met gets a key token put in front of it.
-/
namespace VectorGraph.Yaml

inductive TokenKind where
  | streamStart
  | streamEnd
  | directive (d : Directive)
  | documentStart
  | documentEnd
  | blockSequenceStart
  | blockMappingStart
  | blockEnd
  | flowSequenceStart
  | flowSequenceEnd
  | flowMappingStart
  | flowMappingEnd
  | blockEntry
  | flowEntry
  | key
  | value
  | aliasName (name : String)
  | anchor (name : String)
  | tag (handle suffix : String)
  | scalar (style : ScalarStyle) (text : String)
deriving DecidableEq

structure Token where
  kind : TokenKind
  start : Mark
  stop : Mark
deriving DecidableEq

/-- Characters that may not stand in a text at all. -/
def isControl (c : Char) : Bool :=
  let n := c.toNat
  !(n == 0x09 || n == 0x0a || n == 0x0d || 0x20 ≤ n && n ≤ 0x7e || n == 0x85 || 0xa0 ≤ n && n ≤ 0xfffd ||
    0x10000 ≤ n)

/-- A text is taken in blocks of whole characters, each as long as it can be within so many bytes. -/
def blockLength : Nat := 16384

/-- The first control character of a text: the bytes before it, and before the block that it lies in. -/
structure Barrier where
  block : Nat
  offset : Nat

namespace Barrier

/-- Looks through what follows `offset` bytes of a text, of which the last block begins after `block`. -/
def find? (block offset : Nat) : List Char → Option Barrier
  | [] => none
  | c :: cs =>
    let block := if block + blockLength < offset + c.utf8Size then offset else block
    if isControl c then some ⟨block, offset⟩ else find? block (offset + c.utf8Size) cs

/-- Nothing of the block can be read. -/
def flaw? (b : Barrier) (reached : Mark) : Option Flaw :=
  if b.block ≤ reached.index then some ⟨.controlCharacter b.offset, {}, none⟩ else none

end Barrier

/-- A place where a key may have begun without an indicator: the number of flow collections around it, the
number of tokens before it, and whether a colon has to follow it. -/
structure PendingKey where
  depth : Nat
  token : Nat
  required : Bool
  mark : Mark

/-- A text on its way to tokens. There are `count` tokens so far, the latest first. The indents of the open
blocks and the pending keys, of which each flow collection has at most one, are innermost first. -/
structure Lexer where
  cursor : Cursor
  tokens : List Token
  count : Nat
  indents : List Nat
  /-- The number of open flow collections. -/
  depth : Nat
  keys : List PendingKey
  /-- Whether a key without an indicator may begin here. -/
  keyAllowed : Bool

namespace Lexer

def start (text : List Char) : Lexer :=
  { cursor := { rest := text }, tokens := [⟨.streamStart, {}, {}⟩], count := 1, indents := [], depth := 0
    keys := [], keyAllowed := true }

/-- The indent of the innermost open block, or minus one. -/
def indent (s : Lexer) : Int :=
  match s.indents with
  | n :: _ => n
  | [] => -1

def inFlow (s : Lexer) : Bool := 0 < s.depth

def push (s : Lexer) (kind : TokenKind) (start stop : Mark) : Lexer :=
  { s with tokens := ⟨kind, start, stop⟩ :: s.tokens, count := s.count + 1 }

/-- Puts a token after the first `place` ones. -/
def insert (s : Lexer) (place : Nat) (kind : TokenKind) (mark : Mark) : Lexer :=
  { s with tokens := s.tokens.insertIdx (s.count - place) ⟨kind, mark, mark⟩, count := s.count + 1 }

def take (s : Lexer) (n : Nat) (kind : TokenKind) : Lexer :=
  let after := s.cursor.advance n
  { s.push kind s.cursor.mark after.mark with cursor := after }

def lostKey {α : Type} (s : Lexer) (key : PendingKey) : Except Flaw α :=
  s.cursor.flaw .simpleKey key.mark .keyWithoutColon

/-- A key must end on its line and within 1024 bytes. -/
def isStale (s : Lexer) (key : PendingKey) : Bool :=
  decide (key.mark.line < s.cursor.mark.line) || decide (key.mark.index + 1024 < s.cursor.mark.index)

/-- Gives up the keys that are too far back. The outermost is looked at first. -/
def dropStale (s : Lexer) : Except Flaw Lexer :=
  match s.keys.reverse.find? fun key => s.isStale key && key.required with
  | some key => s.lostKey key
  | none => .ok { s with keys := s.keys.filter (!s.isStale ·) }

/-- The pending key of the innermost flow collection, or of the block level outside of any. -/
def key? (s : Lexer) : Option PendingKey := s.keys.head?.filter (·.depth == s.depth)

def dropKey (s : Lexer) : Except Flaw Lexer :=
  match s.key? with
  | some key => if key.required then s.lostKey key else .ok { s with keys := s.keys.drop 1 }
  | none => .ok s

/-- Notes that a key may begin here. It has to be one if it is the first thing of a block's line. -/
def saveKey (s : Lexer) : Except Flaw Lexer :=
  if s.keyAllowed then do
    let required := !s.inFlow && s.indent == s.cursor.column
    let s ← s.dropKey
    return { s with keys := ⟨s.depth, s.count, required, s.cursor.mark⟩ :: s.keys }
  else .ok s

/-- Opens a block at a column that is deeper than the innermost one. -/
def openBlock (s : Lexer) (column : Nat) (place : Nat) (kind : TokenKind) (mark : Mark) : Lexer :=
  if !s.inFlow && s.indent < column then { s.insert place kind mark with indents := column :: s.indents } else s

/-- Closes the blocks that are deeper than a column. -/
def closeBlocks (s : Lexer) (column : Int) : Lexer :=
  if s.inFlow then s
  else
    let mark := s.cursor.mark
    let deeper := s.indents.takeWhile fun (n : Nat) => decide (column < n)
    { s with
      tokens := deeper.foldl (fun tokens _ => ⟨.blockEnd, mark, mark⟩ :: tokens) s.tokens
      count := s.count + deeper.length
      indents := s.indents.drop deeper.length }

/-- Passes blanks, comments, line breaks, and a byte order mark at the start of a line. After a break in a block
a key may begin again. A tab is a blank only where no key may begin. -/
def toNextToken : (bound : List Char) → Lexer → Lexer
  | [], s => s
  | _ :: bound, s =>
    let c := s.cursor
    let c := if c.mark.column == 0 && c.peek == some '\ufeff' then c.skip else c
    let c := c.skipWhile fun ch => ch == ' ' || ch == '\t' && (s.inFlow || !s.keyAllowed)
    let c := c.skipComment
    if c.peek.any isBreak then
      toNextToken bound { s with cursor := c.nextLine, keyAllowed := s.keyAllowed || !s.inFlow }
    else { s with cursor := c }

def streamEnd (s : Lexer) : Except Flaw Lexer := do
  let m := s.cursor.mark
  let mark := if m.column = 0 then m else { m with line := m.line + 1, column := 0 }
  let s := { s with cursor := { s.cursor with mark } }
  let s ← (s.closeBlocks (-1)).dropKey
  return { s with keyAllowed := false }.push .streamEnd mark mark

def directive (s : Lexer) : Except Flaw Lexer := do
  let s ← (s.closeBlocks (-1)).dropKey
  let (d, stop, c) ← Directive.read s.cursor
  return { s.push (.directive d) s.cursor.mark stop with cursor := c, keyAllowed := false }

def documentIndicator (s : Lexer) (kind : TokenKind) : Except Flaw Lexer := do
  let s ← (s.closeBlocks (-1)).dropKey
  return { s with keyAllowed := false }.take 3 kind

def openFlow (s : Lexer) (kind : TokenKind) : Except Flaw Lexer := do
  let s ← s.saveKey
  return { s with depth := s.depth + 1, keyAllowed := true }.take 1 kind

def closeFlow (s : Lexer) (kind : TokenKind) : Except Flaw Lexer := do
  let s ← s.dropKey
  return { s with depth := s.depth - 1, keyAllowed := false }.take 1 kind

def flowEntry (s : Lexer) : Except Flaw Lexer := do
  let s ← s.dropKey
  return { s with keyAllowed := true }.take 1 .flowEntry

/-- Opens a block for an indicator, which is in place only where a key could begin. -/
def indicated (s : Lexer) (problem : Problem) (kind : TokenKind) : Except Flaw Lexer :=
  if s.inFlow then .ok s
  else if s.keyAllowed then .ok (s.openBlock s.cursor.mark.column s.count kind s.cursor.mark)
  else .error ⟨problem, s.cursor.mark, none⟩

def blockEntry (s : Lexer) : Except Flaw Lexer := do
  let s ← (← s.indicated .misplacedEntry .blockSequenceStart).dropKey
  return { s with keyAllowed := true }.take 1 .blockEntry

def key (s : Lexer) : Except Flaw Lexer := do
  let s ← (← s.indicated .misplacedKey .blockMappingStart).dropKey
  return { s with keyAllowed := !s.inFlow }.take 1 .key

/-- A colon makes a key of what was noted as one. -/
def value (s : Lexer) : Except Flaw Lexer :=
  match s.key? with
  | some key =>
    let s := { s with keys := s.keys.drop 1 }.insert key.token .key key.mark
    let s := s.openBlock key.mark.column key.token .blockMappingStart key.mark
    .ok ({ s with keyAllowed := false }.take 1 .value)
  | none => do
    let s ← s.indicated .misplacedValue .blockMappingStart
    return { s with keyAllowed := !s.inFlow }.take 1 .value

def anchor (s : Lexer) (activity : Activity) (kind : String → TokenKind) : Except Flaw Lexer := do
  let s ← s.saveKey
  let (name, c) ← Anchor.read activity s.cursor
  return { s.push (kind name) s.cursor.mark c.mark with cursor := c, keyAllowed := false }

def tag (s : Lexer) : Except Flaw Lexer := do
  let s ← s.saveKey
  let (handle, suffix, c) ← Tag.read s.inFlow s.cursor
  return { s.push (.tag handle suffix) s.cursor.mark c.mark with cursor := c, keyAllowed := false }

def blockScalar (s : Lexer) (folded : Bool) : Except Flaw Lexer := do
  let s ← s.dropKey
  let (text, stop, c) ← Block.read folded s.indent s.cursor
  let style := if folded then .folded else .literal
  return { s.push (.scalar style (.ofList text)) s.cursor.mark stop with cursor := c, keyAllowed := true }

def quotedScalar (s : Lexer) (single : Bool) : Except Flaw Lexer := do
  let s ← s.saveKey
  let (text, c) ← Quoted.read single s.cursor.mark s.cursor.rest [] s.cursor.skip
  let style := if single then .singleQuoted else .doubleQuoted
  return { s.push (.scalar style (.ofList text)) s.cursor.mark c.mark with cursor := c, keyAllowed := false }

/-- After a plain scalar that ended at a line break a key may begin. -/
def plainScalar (s : Lexer) : Except Flaw Lexer := do
  let s ← s.saveKey
  let (text, stop, broken, c) ← Plain.read s.inFlow (s.indent + 1) s.cursor
  return { s.push (.scalar .plain (.ofList text)) s.cursor.mark stop with cursor := c, keyAllowed := broken }

/-- What begins no plain scalar. -/
def isIndicator (c : Char) : Bool :=
  ['-', '?', ':', ',', '[', ']', '\x7b', '\x7d', '#', '&', '*', '!', '|', '>', '\'', '"', '%', '@',
    '\x60'].contains c

/-- The token that begins at the cursor, which is past white space. -/
def token (s : Lexer) : Except Flaw Lexer :=
  let c := s.cursor
  let next := c.peekAt 1
  match c.peek with
  | none => s.streamEnd
  | some ch =>
    if c.mark.column = 0 ∧ ch = '%' then s.directive
    else if c.atDocumentIndicator then
      s.documentIndicator (if ch = '-' then .documentStart else .documentEnd)
    else if ch = '[' then s.openFlow .flowSequenceStart
    else if ch = '\x7b' then s.openFlow .flowMappingStart
    else if ch = ']' then s.closeFlow .flowSequenceEnd
    else if ch = '\x7d' then s.closeFlow .flowMappingEnd
    else if ch = ',' then s.flowEntry
    else if ch = '-' ∧ isBlankOrEnd next then s.blockEntry
    else if ch = '?' ∧ (s.inFlow ∨ isBlankOrEnd next) then s.key
    else if ch = ':' ∧ (s.inFlow ∨ isBlankOrEnd next) then s.value
    else if ch = '*' then s.anchor .aliasName .aliasName
    else if ch = '&' then s.anchor .anchor .anchor
    else if ch = '!' then s.tag
    else if ch = '|' ∧ !s.inFlow then s.blockScalar false
    else if ch = '>' ∧ !s.inFlow then s.blockScalar true
    else if ch = '\'' then s.quotedScalar true
    else if ch = '"' then s.quotedScalar false
    else if !isBlankOrEnd (some ch) && !isIndicator ch || ch == '-' && !next.any isBlank ||
        !s.inFlow && (ch == '?' || ch == ':') then s.plainScalar
    else c.flaw .nextToken c.mark .noToken

/-- Passes white space and takes the token after it. -/
def step (s : Lexer) : Except Flaw Lexer := do
  let s ← (s.toNextToken s.cursor.rest).dropStale
  (← (s.closeBlocks s.cursor.mark.column).token).dropStale

def isDone (s : Lexer) : Bool := s.tokens.head?.any (·.kind == .streamEnd)

/-- The tokens that are final: those before any that may still get a key token put in front. -/
def settled (s : Lexer) : List Token :=
  let place := s.keys.foldl (fun n key => min n key.token) s.count
  (s.tokens.drop (s.count - place)).reverse

/-- Takes tokens until the end or a flaw; a flaw leaves the tokens that were final before it. -/
def run (barrier : Option Barrier) : (count : Nat) → Lexer → List Token × Option Flaw
  | 0, s => (s.settled, none)
  | count + 1, s =>
    if s.isDone then (s.tokens.reverse, none)
    else
      match s.step with
      | .ok next =>
        match barrier.bind (·.flaw? next.cursor.mark) with
        | some e => (s.settled, some e)
        | none => run barrier count next
      | .error e => (s.settled, some ((barrier.bind (·.flaw? e.mark)).getD e))

end Lexer

def tokens (text : List Char) : List Token × Option Flaw :=
  Lexer.run (Barrier.find? 0 0 text) (text.length + 2) (.start text)

end VectorGraph.Yaml
