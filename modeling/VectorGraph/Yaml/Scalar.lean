import VectorGraph.Text.Hexadecimal
import VectorGraph.Yaml.Cursor

/-!
The written forms of scalars: plain, between quotes, and as indented blocks. Each reader takes its scalar off
the text and gives its value.
-/
namespace VectorGraph.Yaml

inductive ScalarStyle where
  | plain
  | singleQuoted
  | doubleQuoted
  | literal
  | folded
deriving DecidableEq

namespace Plain

def isFlowIndicator (c : Char) : Bool := c == ',' || c == '[' || c == ']' || c == '\x7b' || c == '\x7d'

/-- The characters up to the next white space or indicator, and whether a colon there is a flaw: within
flow collections no indicator may follow it directly. -/
def run (flow : Bool) : List Char → List Char × Bool
  | [] => ([], false)
  | c :: cs =>
    if isBlankOrEnd (some c) then ([], false)
    else if flow && c == ':' && cs.head?.any fun d => isFlowIndicator d || d == '?' then ([], true)
    else if (c == ':' && isBlankOrEnd cs.head?) || (flow && isFlowIndicator c) then ([], false)
    else
      let (text, flawed) := run flow cs
      (c :: text, flawed)

/-- What was read of a plain scalar: its text from the end on, the gap after it, and where it ended. -/
structure Part where
  text : List Char
  gap : Gap
  stop : Mark

/-- Reads runs and the gaps between them. Lines after the first lie at `indent` or deeper. -/
def parts (flow : Bool) (indent : Int) (start : Mark) :
    (bound : List Char) → Part → Cursor → Except Flaw (Part × Cursor)
  | [], p, c => .ok (p, c)
  | _ :: bound, p, c =>
    if c.atDocumentIndicator || c.peek == some '#' then .ok (p, c)
    else
      let (text, flawed) := run flow c.rest
      let after := c.advance text.length
      if flawed then after.flaw .plainScalar start .flowColon
      else
        let p :=
          if text.isEmpty then p
          else ⟨text.reverseAux (p.gap.text.reverseAux p.text), {}, after.mark⟩
        if after.peek.isNone || !isBlankOrEnd after.peek then .ok (p, after)
        else
          match Gap.take (fun c => indent ≤ c.column) after.rest p.gap after with
          | .error c => c.flaw .plainScalar start .tabInPlain
          | .ok (gap, c) =>
            let p := { p with gap }
            if !flow && c.column < indent then .ok (p, c) else parts flow indent start bound p c

/-- The text, where it stops, whether it was followed by a line break, and the rest. -/
def read (flow : Bool) (indent : Int) (c : Cursor) : Except Flaw (List Char × Mark × Bool × Cursor) := do
  let (p, rest) ← parts flow indent c.mark c.rest ⟨[], {}, c.mark⟩ c
  return (p.text.reverse, p.stop, p.gap.broken, rest)

end Plain

namespace Quoted

/-- An escape stands for a character, or for the number of hexadecimal digits that name one. -/
def escape? : Char → Option (Char ⊕ Nat)
  | '0' => some (.inl '\x00')
  | 'a' => some (.inl '\x07')
  | 'b' => some (.inl '\x08')
  | 't' => some (.inl '\t')
  | '\t' => some (.inl '\t')
  | 'n' => some (.inl '\n')
  | 'v' => some (.inl '\x0b')
  | 'f' => some (.inl '\x0c')
  | 'r' => some (.inl '\r')
  | 'e' => some (.inl '\x1b')
  | ' ' => some (.inl ' ')
  | '"' => some (.inl '"')
  | '/' => some (.inl '/')
  | '\\' => some (.inl '\\')
  | 'N' => some (.inl '\u0085')
  | '_' => some (.inl '\u00a0')
  | 'L' => some (.inl '\u2028')
  | 'P' => some (.inl '\u2029')
  | 'x' => some (.inr 2)
  | 'u' => some (.inr 4)
  | 'U' => some (.inr 8)
  | _ => none

def escape (start : Mark) (c : Cursor) : Except Flaw (Char × Cursor) :=
  match (c.peekAt 1).bind escape? with
  | none => c.flaw .quotedEscape start .unknownEscape
  | some (.inl ch) => .ok (ch, c.advance 2)
  | some (.inr width) =>
    let c := c.advance 2
    let digits := c.rest.take width
    match Text.hexNumber? digits with
    | some n =>
      if digits.length < width then c.flaw .quotedEscape start .noHexDigits
      else if n.isValidChar then .ok (.ofNat n, c.advance width)
      else c.flaw .quotedEscape start .invalidCodePoint
    | none => c.flaw .quotedEscape start .noHexDigits

/-- Takes a gap, in which tabs are free. -/
def gap (g : Gap) (c : Cursor) : Gap × Cursor :=
  match Gap.take (fun _ => true) c.rest g c with
  | .ok r => r
  | .error c => (g, c)

/-- Reads up to the closing quote and past it, with the text so far from its end on. A break after a
backslash is left out. -/
def read (single : Bool) (start : Mark) :
    (bound : List Char) → (text : List Char) → Cursor → Except Flaw (List Char × Cursor)
  | [], _, c => c.flaw .quotedScalar start .endOfStream
  | _ :: bound, text, c =>
    if c.atDocumentIndicator then c.flaw .quotedScalar start .documentIndicator
    else
      match c.peek with
      | none => c.flaw .quotedScalar start .endOfStream
      | some ch =>
        if ch == (if single then '\'' else '"') then
          if single && c.peekAt 1 == some '\'' then read single start bound ('\'' :: text) (c.advance 2)
          else .ok (text.reverse, c.skip)
        else if !single && ch == '\\' then
          if (c.peekAt 1).any isBreak then
            let (g, c) := gap { broken := true } c.skip.nextLine
            read single start bound (g.text.reverseAux text) c
          else
            match escape start c with
            | .error e => .error e
            | .ok (ch, c) => read single start bound (ch :: text) c
        else if isBlankOrEnd (some ch) then
          let (g, c) := gap {} c
          read single start bound (g.text.reverseAux text) c
        else
          let plain := c.takeWhile fun d => !isBlankOrEnd (some d) && d != '\\' && d != '\'' && d != '"'
          if plain.isEmpty then read single start bound (ch :: text) c.skip
          else read single start bound (plain.reverseAux text) (c.advance plain.length)

end Quoted

namespace Block

/-- What becomes of the breaks at the end. -/
inductive Chomping where
  | strip
  | clip
  | keep
deriving DecidableEq

structure Header where
  chomping : Chomping := .clip
  /-- The depth of the text below the surrounding block, where it is given. -/
  increment : Option Nat := none

def chomping? : Option Char → Option Chomping
  | some '+' => some .keep
  | some '-' => some .strip
  | _ => none

/-- A digit for the depth, which is not zero. -/
def increment (start : Mark) (c : Cursor) : Except Flaw (Option Nat × Cursor) :=
  match c.peek with
  | some d =>
    if d == '0' then c.flaw .blockScalar start .zeroIndent
    else if d.isDigit then .ok (some (d.toNat - '0'.toNat), c.skip)
    else .ok (none, c)
  | none => .ok (none, c)

/-- The two parts of a header come in either order. -/
def header (start : Mark) (c : Cursor) : Except Flaw (Header × Cursor) := do
  match chomping? c.peek with
  | some chomping =>
    let (increment, c) ← increment start c.skip
    return (⟨chomping, increment⟩, c)
  | none =>
    let (increment, c) ← increment start c
    match increment, chomping? c.peek with
    | some _, some chomping => return (⟨chomping, increment⟩, c.skip)
    | _, _ => return (⟨.clip, increment⟩, c)

/-- Empty lines and the indent of the line after them. -/
structure Lead where
  breaks : List Char
  /-- The deepest column that was reached. -/
  deepest : Nat
  /-- Where the last break ended. -/
  stop : Mark

/-- Passes empty lines, whose breaks come last first. Without a given indent all leading spaces count. -/
def lead (indent : Option Nat) (start : Mark) :
    (bound : List Char) → Lead → Cursor → Except Flaw (Lead × Cursor)
  | [], l, c => .ok (l, c)
  | _ :: bound, l, c =>
    let spaces := (c.takeWhile (· == ' ')).length
    let c := c.advance (match indent with
      | none => spaces
      | some indent => min spaces (indent - c.mark.column))
    let l := { l with deepest := max l.deepest c.mark.column }
    if indent.all (c.mark.column < ·) && c.peek == some '\t' then c.flaw .blockScalar start .tabIndent
    else if c.peek.any isBreak then
      lead indent start bound { l with breaks := c.breakText ++ l.breaks, stop := c.nextLine.mark } c.nextLine
    else .ok (l, c)

def leadFrom (indent : Option Nat) (start : Mark) (c : Cursor) : Except Flaw (Lead × Cursor) :=
  (lead indent start c.rest ⟨[], 0, c.mark⟩ c).map fun (l, c) => ({ l with breaks := l.breaks.reverse }, c)

/-- What was read of a block: its text from the end on, the break after its last line, whether that line
began with a blank, the empty lines after it, and where it ended. -/
structure Part where
  text : List Char := []
  pending : List Char := []
  blank : Bool := false
  breaks : List Char
  stop : Mark

/-- Reads the lines at the indent. A folded line is joined to the next one by a space unless one of the two
begins with a blank or an empty line lies between them. -/
def lines (folded : Bool) (indent : Nat) (start : Mark) :
    (bound : List Char) → Part → Cursor → Except Flaw (Part × Cursor)
  | [], p, c => .ok (p, c)
  | _ :: bound, p, c =>
    if c.mark.column == indent && c.peek.isSome then
      let blank := c.peek.any isBlank
      let join :=
        if folded && p.pending == ['\n'] && !p.blank && !blank then
          if p.breaks.isEmpty then [' '] else p.breaks
        else p.pending ++ p.breaks
      let line := c.takeWhile (!isBreak ·)
      let c := c.advance line.length
      let pending := c.breakText
      let c := if c.peek.isSome then c.nextLine else c
      match leadFrom (some indent) start c with
      | .error e => .error e
      | .ok (l, c) =>
        let text := line.reverseAux (join.reverseAux p.text)
        lines folded indent start bound ⟨text, pending, blank, l.breaks, l.stop⟩ c
    else .ok (p, c)

/-- Reads a block from its indicator on; `outer` is the indent around it. -/
def read (folded : Bool) (outer : Int) (c : Cursor) : Except Flaw (List Char × Mark × Cursor) := do
  let start := c.mark
  let (h, c) ← header start c.skip
  let c := (c.skipWhile isBlank).skipComment
  if !isBreakOrEnd c.peek then c.flaw .blockScalar start .directiveEnd
  else
    let c := if c.peek.isSome then c.nextLine else c
    let given := h.increment.map fun n => if 0 ≤ outer then outer.toNat + n else n
    let (l, c) ← leadFrom given start c
    let indent := given.getD (max l.deepest (max (outer + 1).toNat 1))
    let (p, c) ← lines folded indent start c.rest { breaks := l.breaks, stop := l.stop } c
    let tail := match h.chomping with
      | .strip => []
      | .clip => p.pending
      | .keep => p.pending ++ p.breaks
    return (p.text.reverseAux tail, p.stop, c)

end Block

end VectorGraph.Yaml
