import VectorGraph.Text.Hexadecimal
import VectorGraph.Yaml.Cursor

/-!
Anchors, tags and directives: the names and marks that stand before nodes and documents. A tag is a sequence of
octets, each of them kept as the character of its number. What it says ends before its first octet of zero.
-/
namespace VectorGraph.Yaml

namespace Anchor

def mayFollow (c : Char) : Bool :=
  isBlankOrEnd (some c) || c == '?' || c == ':' || c == ',' || c == ']' || c == '\x7d' || c == '%' ||
    c == '@' || c == '\x60'

def read (activity : Activity) (c : Cursor) : Except Flaw (String × Cursor) :=
  let name := c.skip.takeWhile isNameChar
  let rest := c.skip.advance name.length
  if name.isEmpty || !rest.peek.all mayFollow then rest.flaw activity c.mark .noAnchorName
  else .ok (.ofList name, rest)

end Anchor

namespace Tag

def isUriChar (c : Char) : Bool :=
  isNameChar c || [';', '/', '?', ':', '@', '&', '=', '+', '$', '.', '%', '!', '~', '*', '\'', '(',
    ')'].contains c

def isVerbatimChar (c : Char) : Bool := isUriChar c || c == ',' || c == '[' || c == ']'

def octet? (c : Cursor) : Option Nat :=
  match c.rest with
  | '%' :: a :: b :: _ => Text.hexNumber? [a, b]
  | _ => none

/-- The number of octets that follow the first one of a character. -/
def trailingCount? (n : Nat) : Option Nat :=
  if n < 0x80 then some 0
  else if 0xc0 ≤ n ∧ n < 0xe0 then some 1
  else if 0xe0 ≤ n ∧ n < 0xf0 then some 2
  else if 0xf0 ≤ n ∧ n < 0xf8 then some 3
  else none

def trailing (activity : Activity) (start : Mark) :
    (count : Nat) → (octets : List Char) → Cursor → Except Flaw (List Char × Cursor)
  | 0, octets, c => .ok (octets, c)
  | count + 1, octets, c =>
    match octet? c with
    | none => c.flaw activity start .noUriEscape
    | some n =>
      if n / 64 = 2 then trailing activity start count (octets ++ [.ofNat n]) (c.advance 3)
      else c.flaw activity start .badTrailingOctet

/-- The octets of one character. They need not be the shortest form of it. -/
def uriEscape (activity : Activity) (start : Mark) (c : Cursor) : Except Flaw (List Char × Cursor) :=
  match octet? c with
  | none => c.flaw activity start .noUriEscape
  | some n =>
    match trailingCount? n with
    | none => c.flaw activity start .badLeadingOctet
    | some count => trailing activity start count [.ofNat n] (c.advance 3)

/-- The octets of a tag, with those so far from the last one on. -/
def uriRest (activity : Activity) (start : Mark) (allowed : Char → Bool) :
    (bound : List Char) → (text : List Char) → Cursor → Except Flaw (List Char × Cursor)
  | [], text, c => .ok (text.reverse, c)
  | _ :: bound, text, c =>
    match c.peek with
    | some '%' =>
      match uriEscape activity start c with
      | .error e => .error e
      | .ok (octets, c) => uriRest activity start allowed bound (octets.reverseAux text) c
    | some ch =>
      if allowed ch then uriRest activity start allowed bound (ch :: text) c.skip else .ok (text.reverse, c)
    | none => .ok (text.reverse, c)

/-- A part of a tag. What was read as its head counts without the mark that begins it, and lets the rest be
empty. -/
def uri (activity : Activity) (start : Mark) (allowed : Char → Bool) (head : List Char) (c : Cursor) :
    Except Flaw (String × Cursor) := do
  let (text, rest) ← uriRest activity start allowed c.rest (head.drop 1).reverse c
  if head.isEmpty && text.isEmpty then rest.flaw activity start .noTagUri
  else return (.ofList (text.takeWhile (· != '\x00')), rest)

def handle (activity : Activity) (start : Mark) (c : Cursor) : Except Flaw (List Char × Cursor) :=
  if c.peek = some '!' then
    let name := c.skip.takeWhile isNameChar
    let c := c.skip.advance name.length
    if c.peek = some '!' then .ok ('!' :: name ++ ['!'], c.skip) else .ok ('!' :: name, c)
  else c.flaw activity start .noTagMark

/-- A tag as its handle and its suffix. One that is given in full has no handle; a lone mark is all suffix. -/
def parts (c : Cursor) : Except Flaw (String × String × Cursor) := do
  let start := c.mark
  if c.peekAt 1 = some '<' then
    let (suffix, c) ← uri .tagValue start isVerbatimChar [] (c.advance 2)
    if c.peek = some '>' then return ("", suffix, c.skip) else c.flaw .tag start .noTagClose
  else
    let (head, c) ← handle .tag start c
    if 2 ≤ head.length ∧ head.getLast? = some '!' then
      let (suffix, c) ← uri .tagValue start isUriChar [] c
      return (.ofList head, suffix, c)
    else
      let (suffix, c) ← uri .tagValue start isUriChar head c
      return if suffix.isEmpty then ("", "!", c) else ("!", suffix, c)

/-- A tag ends at a blank, or within flow collections at a comma. -/
def read (flow : Bool) (c : Cursor) : Except Flaw (String × String × Cursor) := do
  let (handle, suffix, rest) ← parts c
  if isBlankOrEnd rest.peek || flow && rest.peek == some ',' then return (handle, suffix, rest)
  else rest.flaw .tag c.mark .noBlankOrBreak

end Tag

inductive Directive where
  | version (major minor : Nat)
  | tag (handle value : String)
deriving DecidableEq

namespace Directive

def number (start : Mark) (c : Cursor) : Except Flaw (Nat × Cursor) :=
  let digits := c.takeWhile Char.isDigit
  if 9 < digits.length then (c.advance 9).flaw .versionDirective start .longVersion
  else if digits.isEmpty then c.flaw .versionDirective start .noVersion
  else .ok (digits.foldl (fun n d => 10 * n + (d.toNat - '0'.toNat)) 0, c.advance digits.length)

def versionValue (start : Mark) (c : Cursor) : Except Flaw (Directive × Cursor) := do
  let (major, c) ← number start (c.skipWhile isBlank)
  if c.peek = some '.' then
    let (minor, c) ← number start c.skip
    return (.version major minor, c)
  else c.flaw .versionDirective start .noPoint

/-- A handle with a second mark, or a mark alone, and then what it stands for. -/
def tagValue (start : Mark) (c : Cursor) : Except Flaw (Directive × Cursor) := do
  let (handle, c) ← Tag.handle .tagDirectiveHandle start (c.skipWhile isBlank)
  if handle ≠ ['!'] ∧ (handle.length < 2 ∨ handle.getLast? ≠ some '!') then
    c.flaw .tagDirectiveRest start .noTagMark
  else if !(c.peek.any isBlank) then c.flaw .tagDirective start .noBlank
  else
    let (value, c) ← Tag.uri .tagDirectiveValue start Tag.isVerbatimChar [] (c.skipWhile isBlank)
    if isBlankOrEnd c.peek then return (.tag (.ofList handle) value, c)
    else c.flaw .tagDirective start .noBlankOrBreak

def value (c : Cursor) : Except Flaw (Directive × Cursor) :=
  let start := c.mark
  let name := c.skip.takeWhile isNameChar
  let c := c.skip.advance name.length
  if name.isEmpty then c.flaw .directive start .noDirectiveName
  else if !isBlankOrEnd c.peek then c.flaw .directive start .directiveNameEnd
  else if name = "YAML".toList then versionValue start c
  else if name = "TAG".toList then tagValue start c
  else c.flaw .directive start .unknownDirective

/-- A directive with the line break after it, and where its value ended. -/
def read (c : Cursor) : Except Flaw (Directive × Mark × Cursor) := do
  let (d, after) ← value c
  let rest := (after.skipWhile isBlank).skipComment
  if isBreakOrEnd rest.peek then return (d, after.mark, if rest.peek.isSome then rest.nextLine else rest)
  else rest.flaw .directive c.mark .directiveEnd

end Directive

end VectorGraph.Yaml
