import VectorGraph.Json.Numeral
import VectorGraph.Json.Value
import VectorGraph.Mismatch
import VectorGraph.Text.Hexadecimal

/-!
Typed reading of JSON text. A reader takes its value off the front of the text and stops at the first fault
it meets, be it a fault of grammar or a value of the wrong kind. A value of the wrong kind is read only as
far as is needed to name it.
-/
namespace VectorGraph.Json

inductive Fault where
  | malformed
  | mismatch (m : Mismatch)
deriving DecidableEq

abbrev Reader := StateT (List Char) (Except Fault)

def wording : Wording where
  unit := "null"
  float x :=
    match x.shortest? with
    | some (negative, d) => .ofList (layout64.write negative d)
    | none => "null"

def Fault.message? : Fault → Option String
  | malformed => none
  | mismatch m => some (m.message wording)

namespace Reader

variable {α : Type}

def malformed : Reader α := fun _ => .error .malformed

def mismatch (m : Mismatch) : Reader α := fun _ => .error (.mismatch m)

/-- Takes what a partial function takes off the front of the text. -/
def ofOption (f : List Char → Option (α × List Char)) : Reader α := fun cs =>
  match f cs with
  | some r => .ok r
  | none => .error .malformed

def isSpace (c : Char) : Bool := c == ' ' || c == '\n' || c == '\t' || c == '\r'

def space : Reader Unit := fun cs => .ok ((), cs.dropWhile isSpace)

/-- The next character, which stays in place. -/
def peek : Reader (Option Char) := fun cs => .ok (cs.head?, cs)

def word (w : List Char) : Reader Unit := fun cs =>
  if w.isPrefixOf cs then .ok ((), cs.drop w.length) else .error .malformed

def char (c : Char) : Reader Unit := word [c]

def escape? : Char → Option Char
  | '"' => some '"'
  | '\\' => some '\\'
  | '/' => some '/'
  | 'b' => some '\x08'
  | 'f' => some '\x0c'
  | 'n' => some '\n'
  | 'r' => some '\r'
  | 't' => some '\t'
  | _ => none

def isHighSurrogate (n : Nat) : Bool := decide (0xd800 ≤ n ∧ n < 0xdc00)

def isLowSurrogate (n : Nat) : Bool := decide (0xdc00 ≤ n ∧ n < 0xe000)

def pair (high low : Nat) : Char := .ofNat (0x10000 + (high - 0xd800) * 0x400 + (low - 0xdc00))

/-- The rest of a string after its opening quote. Surrogates come in pairs. -/
def string? : List Char → Option (List Char × List Char)
  | [] => none
  | '"' :: cs => some ([], cs)
  | '\\' :: 'u' :: a :: b :: c :: d :: cs =>
    match Text.hexNumber? [a, b, c, d] with
    | none => none
    | some n =>
      if isHighSurrogate n then
        match cs with
        | '\\' :: 'u' :: e :: f :: g :: h :: cs =>
          match Text.hexNumber? [e, f, g, h] with
          | none => none
          | some m =>
            if isLowSurrogate m then (string? cs).map fun (s, cs) => (pair n m :: s, cs) else none
        | _ => none
      else if isLowSurrogate n then none
      else (string? cs).map fun (s, cs) => (.ofNat n :: s, cs)
  | '\\' :: c :: cs =>
    match escape? c with
    | some e => (string? cs).map fun (s, cs) => (e :: s, cs)
    | none => none
  | c :: cs => if c.toNat < 32 then none else (string? cs).map fun (s, cs) => (c :: s, cs)

def string : Reader String := do
  char '"'
  let s ← ofOption string?
  return .ofList s

/-- The end of a string that is not wanted, whose surrogates need no partner. -/
def stringEnd? : List Char → Option (Unit × List Char)
  | [] => none
  | '"' :: cs => some ((), cs)
  | '\\' :: 'u' :: a :: b :: c :: d :: cs => (Text.hexNumber? [a, b, c, d]).bind fun _ => stringEnd? cs
  | '\\' :: c :: cs => (escape? c).bind fun _ => stringEnd? cs
  | c :: cs => if c.toNat < 32 then none else stringEnd? cs

mutual

/-- Takes any value off the text, of at most `depth` nested parts. -/
def skipWithin : (depth : Nat) → Reader Unit
  | 0 => malformed
  | depth + 1 => do
    space
    match ← peek with
    | some 'n' => word "null".toList
    | some 't' => word "true".toList
    | some 'f' => word "false".toList
    | some '"' => do
      char '"'
      ofOption stringEnd?
    | some '[' => do
      char '['
      space
      if (← peek) = some ']' then char ']' else skipItems depth
    | some '\x7b' => do
      char '\x7b'
      space
      if (← peek) = some '\x7d' then char '\x7d' else skipMembers depth
    | some _ => do let _ ← ofOption Numeral.read?
    | none => malformed

def skipItems : (depth : Nat) → Reader Unit
  | 0 => malformed
  | depth + 1 => do
    skipWithin depth
    space
    match ← peek with
    | some ',' => do
      char ','
      skipItems depth
    | _ => char ']'

def skipMembers : (depth : Nat) → Reader Unit
  | 0 => malformed
  | depth + 1 => do
    space
    char '"'
    ofOption stringEnd?
    space
    char ':'
    skipWithin depth
    space
    match ← peek with
    | some ',' => do
      char ','
      skipMembers depth
    | _ => char '\x7d'

end

/-- Every part of a value takes a character, so the text itself bounds their number. -/
def skip : Reader Unit := fun cs => skipWithin (2 * cs.length + 2) cs

def number : Reader Number := do
  match (← ofOption Numeral.read?).value? with
  | some n => return n
  | none => malformed

def startsNumber (c : Char) : Bool := c == '-' || c.isDigit

def foundNumber : Number → Found
  | .unsigned n => .integer n
  | .negative n => .integer n
  | .float x => .float x

def refuse (expected : String) : Reader α := do
  let wrong (found : Found) : Reader α := mismatch (.wrongType found expected)
  match ← peek with
  | some 'n' => do
    word "null".toList
    wrong .unit
  | some 't' => do
    word "true".toList
    wrong (.bool true)
  | some 'f' => do
    word "false".toList
    wrong (.bool false)
  | some '"' => do wrong (.string (← string))
  | some '[' => wrong .sequence
  | some '\x7b' => wrong .map
  | some c => if startsNumber c then do wrong (foundNumber (← number)) else malformed
  | none => malformed

/-- A value that is made of a number; `expected` names the type in refusals. -/
def ofNumber (expected : String) (convert : Number → Except Mismatch α) : Reader α := do
  space
  match ← peek with
  | some c =>
    if startsNumber c then
      match convert (← number) with
      | .ok a => return a
      | .error m => mismatch m
    else refuse expected
  | none => malformed

def uint64 (expected : String) : Reader UInt64 := ofNumber expected fun
  | .unsigned n => .ok (.ofNat n)
  | .negative n => .error (.wrongValue (.integer n) expected)
  | .float x => .error (.wrongType (.float x) expected)

def float64 : Reader Binary64 := ofNumber "f64" fun
  | .unsigned n => .ok (.ofFloat n.toUInt64.toFloat)
  | .negative n => .ok (.ofFloat (-n.natAbs.toUInt64.toFloat))
  | .float x => .ok x

/-- Integers are rounded once, other numbers by way of binary64. -/
def float32 : Reader Binary32 := ofNumber "f32" fun
  | .unsigned n => .ok (.ofFloat n.toUInt64.toFloat32)
  | .negative n => .ok (.ofFloat (-n.natAbs.toUInt64.toFloat32))
  | .float x => .ok x.narrow

def bool : Reader Bool := do
  space
  match ← peek with
  | some 't' => do
    word "true".toList
    return true
  | some 'f' => do
    word "false".toList
    return false
  | _ => refuse "a boolean"

def optional (r : Reader α) : Reader (Option α) := do
  space
  match ← peek with
  | some 'n' => do
    word "null".toList
    return none
  | _ => return some (← r)

def variant (variants : List (String × α)) (name : String) : Reader α :=
  match variants.lookup name with
  | some v => return v
  | none => mismatch (.unknownVariant name (variants.map (·.1)))

/-- A variant name, or an object that has it as its only key, with the value `null`. -/
def enumeration (variants : List (String × α)) : Reader α := do
  space
  match ← peek with
  | some '"' => do variant variants (← string)
  | some '\x7b' => do
    char '\x7b'
    space
    let v ← variant variants (← string)
    space
    char ':'
    space
    if (← peek) = some 'n' then word "null".toList else refuse "unit"
    space
    char '\x7d'
    return v
  | _ => malformed

def run (r : Reader α) (text : String) : Except Fault α :=
  match r text.toList with
  | .error e => .error e
  | .ok (v, rest) => if rest.all isSpace then .ok v else .error .malformed

end Reader

end VectorGraph.Json
