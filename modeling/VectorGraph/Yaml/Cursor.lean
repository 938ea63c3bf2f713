import VectorGraph.Yaml.Flaw

/-! A place in a text with the characters that follow it. -/
namespace VectorGraph.Yaml

structure Cursor where
  rest : List Char
  mark : Mark := {}

def isBlank (c : Char) : Bool := c == ' ' || c == '\t'

def isBreak (c : Char) : Bool :=
  c == '\n' || c == '\r' || c == '\u0085' || c == '\u2028' || c == '\u2029'

def isNameChar (c : Char) : Bool := c.isAlphanum || c == '_' || c == '-'

def isBreakOrEnd (c : Option Char) : Bool := c.all isBreak

def isBlankOrEnd (c : Option Char) : Bool := c.all fun c => isBlank c || isBreak c

def byteLength : List Char → Nat
  | [] => 0
  | c :: cs => c.utf8Size + byteLength cs

namespace Cursor

def peek (c : Cursor) : Option Char := c.rest.head?

def peekAt (c : Cursor) (n : Nat) : Option Char := c.rest[n]?

def column (c : Cursor) : Int := c.mark.column

/-- Passes `n` characters within a line. -/
def advance (c : Cursor) (n : Nat) : Cursor :=
  { rest := c.rest.drop n
    mark := { c.mark with index := c.mark.index + byteLength (c.rest.take n), column := c.mark.column + n } }

def skip (c : Cursor) : Cursor := c.advance 1

/-- The characters up to the first that fails a test, which all lie on one line. -/
def takeWhile (c : Cursor) (p : Char → Bool) : List Char := c.rest.takeWhile p

def skipWhile (c : Cursor) (p : Char → Bool) : Cursor := c.advance (c.takeWhile p).length

/-- Passes a line break; a carriage return and a line feed are one. -/
def nextLine (c : Cursor) : Cursor :=
  let width := match c.rest with
    | '\r' :: '\n' :: _ => 2
    | _ => 1
  { rest := c.rest.drop width
    mark := { index := c.mark.index + byteLength (c.rest.take width), line := c.mark.line + 1, column := 0 } }

/-- A line break as it counts in a scalar: all but the Unicode separators are line feeds. -/
def breakText (c : Cursor) : List Char :=
  match c.peek with
  | some '\u2028' => ['\u2028']
  | some '\u2029' => ['\u2029']
  | some _ => ['\n']
  | none => []

def skipComment (c : Cursor) : Cursor :=
  if c.peek = some '#' then c.skipWhile (!isBreak ·) else c

/-- Three dashes or points at the start of a line, with a blank after them. -/
def atDocumentIndicator (c : Cursor) : Bool :=
  c.mark.column == 0 && (c.rest.take 3 == ['-', '-', '-'] || c.rest.take 3 == ['.', '.', '.']) &&
    isBlankOrEnd (c.peekAt 3)

/-- A flaw at the place of the cursor, found during an activity that began at a mark. -/
def flaw {α : Type} (c : Cursor) (activity : Activity) (start : Mark) (problem : Problem) :
    Except Flaw α :=
  .error ⟨problem, c.mark, some (activity, start)⟩

end Cursor

/-- The white space between two parts of a scalar: blanks on one line, or its first line break and the
breaks that follow it, the last one first. -/
structure Gap where
  blanks : List Char := []
  broken : Bool := false
  first : List Char := []
  more : List Char := []

namespace Gap

/-- A single line feed stands for a space, and is left out where others follow it. -/
def text (g : Gap) : List Char :=
  if g.broken then
    if g.first = ['\n'] then (if g.more.isEmpty then [' '] else g.more.reverse) else g.first ++ g.more.reverse
  else g.blanks

/-- Takes white space into a gap, in no more rounds than there are characters. `tabs` tells whether a tab may
stand at a place after a break. -/
def take (tabs : Cursor → Bool) : (bound : List Char) → Gap → Cursor → Except Cursor (Gap × Cursor)
  | [], g, c => .ok (g, c)
  | _ :: bound, g, c =>
    match c.peek with
    | none => .ok (g, c)
    | some ch =>
      if isBlank ch then
        if !g.broken then
          let blanks := c.takeWhile isBlank
          take tabs bound { g with blanks := g.blanks ++ blanks } (c.advance blanks.length)
        else if ch == '\t' && !tabs c then .error c
        else take tabs bound g c.skip
      else if isBreak ch then
        if g.broken then take tabs bound { g with more := c.breakText ++ g.more } c.nextLine
        else take tabs bound { broken := true, first := c.breakText } c.nextLine
      else .ok (g, c)

end Gap

end VectorGraph.Yaml
