import VectorGraph.Decimal
import VectorGraph.Text.Hexadecimal

/-!
JSON values and their two written forms: compact, on one line, and spread out with an indent of two.
-/
namespace VectorGraph

inductive Json where
  | null
  | bool (b : Bool)
  | integer (n : Int)
  | float32 (x : Binary32)
  | float64 (x : Binary64)
  | string (s : String)
  | array (items : List Json)
  | object (members : List (String × Json))

namespace Json

/-- A float is written without an exponent while the power of ten of its first digit is in these bounds. -/
structure FloatLayout where
  lowest : Int
  highest : Int

def layout32 : FloatLayout := ⟨-6, 12⟩

def layout64 : FloatLayout := ⟨-5, 15⟩

def FloatLayout.write (l : FloatLayout) (negative : Bool) (d : Decimal) : List Char :=
  signed negative (if l.lowest ≤ d.leading ∧ d.leading ≤ l.highest then d.positional else d.scientific)

/-- What is not finite has no number text, and is written as `null`. -/
def writeFloat (l : FloatLayout) : Option (Bool × Decimal) → List Char
  | some (negative, d) => l.write negative d
  | none => "null".toList

def writeBinary32 (x : Binary32) : List Char := writeFloat layout32 x.shortest?

def writeBinary64 (x : Binary64) : List Char := writeFloat layout64 x.shortest?

/-- Controls have short escapes or four hexadecimal digits; nothing else above them is escaped. -/
def escapeChar (c : Char) : List Char :=
  match c with
  | '"' => ['\\', '"']
  | '\\' => ['\\', '\\']
  | '\x08' => ['\\', 'b']
  | '\t' => ['\\', 't']
  | '\n' => ['\\', 'n']
  | '\x0c' => ['\\', 'f']
  | '\r' => ['\\', 'r']
  | c =>
    if c.toNat < 32 then
      let digits := Text.hexDigits c.toNat
      '\\' :: 'u' :: (List.replicate (4 - digits.length) '0' ++ digits)
    else [c]

def writeString (s : String) : List Char := '"' :: s.toList.flatMap escapeChar ++ ['"']

def writeInteger (n : Int) : List Char :=
  signed (decide (n < 0)) (Nat.toDigits 10 n.natAbs)

mutual

def compact : Json → List Char
  | null => "null".toList
  | bool b => (if b then "true" else "false").toList
  | integer n => writeInteger n
  | float32 x => writeBinary32 x
  | float64 x => writeBinary64 x
  | string s => writeString s
  | array items => '[' :: compactItems items ++ [']']
  | object members => '\x7b' :: compactMembers members ++ ['\x7d']

def compactItems : List Json → List Char
  | [] => []
  | [v] => v.compact
  | v :: vs => v.compact ++ ',' :: compactItems vs

def compactMembers : List (String × Json) → List Char
  | [] => []
  | [(name, v)] => writeString name ++ ':' :: v.compact
  | (name, v) :: ms => writeString name ++ ':' :: v.compact ++ ',' :: compactMembers ms

end

def newline (depth : Nat) : List Char := '\n' :: List.replicate (2 * depth) ' '

mutual

/-- Every item and member on a line of its own; empty ones stay closed. -/
def pretty (depth : Nat) : Json → List Char
  | array [] => ['[', ']']
  | object [] => ['\x7b', '\x7d']
  | array items => '[' :: prettyItems (depth + 1) items ++ newline depth ++ [']']
  | object members => '\x7b' :: prettyMembers (depth + 1) members ++ newline depth ++ ['\x7d']
  | v => v.compact

def prettyItems (depth : Nat) : List Json → List Char
  | [] => []
  | [v] => newline depth ++ v.pretty depth
  | v :: vs => newline depth ++ v.pretty depth ++ ',' :: prettyItems depth vs

def prettyMembers (depth : Nat) : List (String × Json) → List Char
  | [] => []
  | [(name, v)] => newline depth ++ writeString name ++ ':' :: ' ' :: v.pretty depth
  | (name, v) :: ms =>
    newline depth ++ writeString name ++ ':' :: ' ' :: v.pretty depth ++ ',' :: prettyMembers depth ms

end

end Json

end VectorGraph
