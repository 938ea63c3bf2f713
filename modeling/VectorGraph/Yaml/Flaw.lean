/-!
Why a text is not YAML: what is wrong, where, and what was being read when it was found.
-/
namespace VectorGraph.Yaml

/-- A place in a text: the bytes before it, the lines before it, and the characters before it on its line. -/
structure Mark where
  index : Nat := 0
  line : Nat := 0
  column : Nat := 0
deriving DecidableEq, Inhabited

namespace Mark

def isOrigin (m : Mark) : Bool := m.line == 0 && m.column == 0

/-- Lines and columns are told from one on. -/
def text (m : Mark) : String :=
  if m.isOrigin then "position " ++ toString m.index
  else "line " ++ toString (m.line + 1) ++ " column " ++ toString (m.column + 1)

/-- Added to a message, but for the start of the text. -/
def suffix (m : Mark) : String := if m.isOrigin then "" else " at " ++ m.text

end Mark

inductive Activity where
  | nextToken
  | simpleKey
  | directive
  | versionDirective
  | tagDirective
  | tagDirectiveHandle
  | tagDirectiveRest
  | tagDirectiveValue
  | anchor
  | aliasName
  | tag
  | tagValue
  | blockScalar
  | quotedScalar
  | quotedEscape
  | plainScalar
  | blockNode
  | flowNode
  | node
  | blockCollection
  | blockMapping
  | flowSequence
  | flowMapping
deriving DecidableEq

def Activity.text : Activity → String
  | nextToken => "while scanning for the next token"
  | simpleKey => "while scanning a simple key"
  | directive => "while scanning a directive"
  | versionDirective => "while scanning a %YAML directive"
  | tagDirective => "while scanning a %TAG directive"
  | tagDirectiveHandle => "while scanning a tag directive"
  | tagDirectiveRest => "while parsing a tag directive"
  | tagDirectiveValue => "while parsing a %TAG directive"
  | anchor => "while scanning an anchor"
  | aliasName => "while scanning an alias"
  | tag => "while scanning a tag"
  | tagValue => "while parsing a tag"
  | blockScalar => "while scanning a block scalar"
  | quotedScalar => "while scanning a quoted scalar"
  | quotedEscape => "while parsing a quoted scalar"
  | plainScalar => "while scanning a plain scalar"
  | blockNode => "while parsing a block node"
  | flowNode => "while parsing a flow node"
  | node => "while parsing a node"
  | blockCollection => "while parsing a block collection"
  | blockMapping => "while parsing a block mapping"
  | flowSequence => "while parsing a flow sequence"
  | flowMapping => "while parsing a flow mapping"

inductive Problem where
  /-- With the number of bytes before the character. -/
  | controlCharacter (offset : Nat)
  | noToken
  | keyWithoutColon
  | misplacedEntry
  | misplacedKey
  | misplacedValue
  | unknownDirective
  | directiveEnd
  | noDirectiveName
  | directiveNameEnd
  | noPoint
  | longVersion
  | noVersion
  | noBlank
  | noBlankOrBreak
  | noAnchorName
  | noTagClose
  | noTagMark
  | noTagUri
  | noUriEscape
  | badLeadingOctet
  | badTrailingOctet
  | zeroIndent
  | tabIndent
  | documentIndicator
  | endOfStream
  | unknownEscape
  | noHexDigits
  | invalidCodePoint
  | flowColon
  | tabInPlain
  | noDocumentStart
  | noNode
  | undefinedTagHandle
  | noEntry
  | noKey
  | noSequenceEnd
  | noMappingEnd
  | repeatedVersion
  | incompatibleVersion
  | repeatedTag
  | unknownAnchor
deriving DecidableEq

def Problem.text : Problem → String
  | controlCharacter _ => "control characters are not allowed"
  | noToken => "found character that cannot start any token"
  | keyWithoutColon => "could not find expected ':'"
  | misplacedEntry => "block sequence entries are not allowed in this context"
  | misplacedKey => "mapping keys are not allowed in this context"
  | misplacedValue => "mapping values are not allowed in this context"
  | unknownDirective => "found unknown directive name"
  | directiveEnd => "did not find expected comment or line break"
  | noDirectiveName => "could not find expected directive name"
  | directiveNameEnd => "found unexpected non-alphabetical character"
  | noPoint => "did not find expected digit or '.' character"
  | longVersion => "found extremely long version number"
  | noVersion => "did not find expected version number"
  | noBlank => "did not find expected whitespace"
  | noBlankOrBreak => "did not find expected whitespace or line break"
  | noAnchorName => "did not find expected alphabetic or numeric character"
  | noTagClose => "did not find the expected '>'"
  | noTagMark => "did not find expected '!'"
  | noTagUri => "did not find expected tag URI"
  | noUriEscape => "did not find URI escaped octet"
  | badLeadingOctet => "found an incorrect leading UTF-8 octet"
  | badTrailingOctet => "found an incorrect trailing UTF-8 octet"
  | zeroIndent => "found an indentation indicator equal to 0"
  | tabIndent => "found a tab character where an indentation space is expected"
  | documentIndicator => "found unexpected document indicator"
  | endOfStream => "found unexpected end of stream"
  | unknownEscape => "found unknown escape character"
  | noHexDigits => "did not find expected hexadecimal number"
  | invalidCodePoint => "found invalid Unicode character escape code"
  | flowColon => "found unexpected ':'"
  | tabInPlain => "found a tab character that violates indentation"
  | noDocumentStart => "did not find expected <document start>"
  | noNode => "did not find expected node content"
  | undefinedTagHandle => "found undefined tag handle"
  | noEntry => "did not find expected '-' indicator"
  | noKey => "did not find expected key"
  | noSequenceEnd => "did not find expected ',' or ']'"
  | noMappingEnd => "did not find expected ',' or '\x7d'"
  | repeatedVersion => "found duplicate %YAML directive"
  | incompatibleVersion => "found incompatible YAML document"
  | repeatedTag => "found duplicate %TAG directive"
  | unknownAnchor => "unknown anchor"

structure Flaw where
  problem : Problem
  mark : Mark
  activity : Option (Activity × Mark) := none
deriving DecidableEq

/-- The activity's own place is told where it is another one. -/
def Flaw.message (f : Flaw) : String :=
  let place := match f.problem with
    | .controlCharacter offset => if offset = 0 then "" else " at position " ++ toString offset
    | _ => f.mark.suffix
  let activity := match f.activity with
    | none => ""
    | some (a, m) =>
      ", " ++ a.text ++ if m.line = f.mark.line ∧ m.column = f.mark.column then "" else m.suffix
  f.problem.text ++ place ++ activity

end VectorGraph.Yaml
