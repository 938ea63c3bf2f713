import VectorGraph.Decimal
import VectorGraph.Mismatch
import VectorGraph.Yaml.Document

/-!
What scalars stand for. A plain scalar may be a null, a boolean, an integer or a float; any other scalar is
a string unless its tag says what it is.
-/
namespace VectorGraph.Yaml

def isNull (s : String) : Bool := s == "null" || s == "Null" || s == "NULL" || s == "~"

def bool? (s : String) : Option Bool :=
  if s == "true" || s == "True" || s == "TRUE" then some true
  else if s == "false" || s == "False" || s == "FALSE" then some false
  else none

def digitValue (c : Char) : Nat :=
  if c.isDigit then c.toNat - '0'.toNat
  else if 'a' ≤ c ∧ c ≤ 'z' then c.toNat - 'a'.toNat + 10
  else if 'A' ≤ c ∧ c ≤ 'Z' then c.toNat - 'A'.toNat + 10
  else 36

/-- The number that digits of a base name, of which there is at least one. -/
def digits? (base : Nat) (cs : List Char) : Option Nat :=
  if cs.isEmpty || cs.any (base ≤ digitValue ·) then none
  else some (cs.foldl (fun n c => base * n + digitValue c) 0)

/-- A base other than ten is told by a letter after a zero. -/
def magnitude? : List Char → Option Nat
  | '0' :: 'x' :: cs => digits? 16 cs
  | '0' :: 'o' :: cs => digits? 8 cs
  | '0' :: 'b' :: cs => digits? 2 cs
  | cs => digits? 10 cs

/-- Digits after a leading zero name no number. -/
def isPadded : List Char → Bool
  | '0' :: c :: cs => (c :: cs).all Char.isDigit
  | _ => false

def unsigned? (s : String) : Option Nat :=
  let cs := match s.toList with
    | '+' :: cs => cs
    | cs => cs
  if isPadded cs then none else magnitude? cs

def negative? (s : String) : Option Int :=
  match s.toList with
  | '-' :: cs => if isPadded cs then none else (magnitude? cs).map fun n => -(n : Int)
  | _ => none

def uint64? (s : String) : Option UInt64 :=
  match unsigned? s with
  | some n => if n < UInt64.size then some (.ofNat n) else none
  | none => none

/-- An integer of up to 128 bits, with the type that holds it where 64 bits do not. -/
def integer? (s : String) : Option Found :=
  match unsigned? s, negative? s with
  | some n, _ =>
    if n < UInt64.size then some (.integer n)
    else if n < 0x100000000000000000000000000000000 then some (.wide n "u128")
    else none
  | none, some n =>
    if -0x8000000000000000 ≤ n then some (.integer n)
    else if -0x80000000000000000000000000000000 ≤ n then some (.wide n "i128")
    else none
  | none, none => none

/-- The exponent of a decimal, which ends it. -/
def exponent? : List Char → Option Int
  | [] => some 0
  | c :: cs =>
    if c = 'e' ∨ c = 'E' then
      match cs with
      | '+' :: cs => (digits? 10 cs).map fun n => (n : Int)
      | '-' :: cs => (digits? 10 cs).map fun n => -(n : Int)
      | cs => (digits? 10 cs).map fun n => (n : Int)
    else none

/-- A decimal with digits before or after its point, or without a point. -/
def decimal? (cs : List Char) : Option Decimal :=
  let whole := cs.takeWhile Char.isDigit
  let rest := cs.dropWhile Char.isDigit
  let (fraction, rest) := match rest with
    | '.' :: rest => (rest.takeWhile Char.isDigit, rest.dropWhile Char.isDigit)
    | rest => ([], rest)
  match digits? 10 (whole ++ fraction), exponent? rest with
  | some digits, some e => some ⟨digits, e - fraction.length⟩
  | _, _ => none

/-- The nearest float to a decimal with an optional sign; one out of range names none. -/
def finite? (cs : List Char) : Option Binary64 :=
  let (negative, cs) := match cs with
    | '-' :: cs => (true, cs)
    | '+' :: cs => (false, cs)
    | cs => (false, cs)
  match decimal? cs with
  | some d =>
    let x := Binary64.ofDecimal negative d
    if x.reading matches .finite .. then some x else none
  | none => none

def isInfinity (s : String) : Bool := s == ".inf" || s == ".Inf" || s == ".INF"

def float? (s : String) : Option Binary64 :=
  let unsigned := match s.toList with
    | '+' :: cs => cs
    | cs => cs
  if isInfinity (.ofList unsigned) then some ⟨0x7ff0000000000000⟩
  else if s == "-.inf" || s == "-.Inf" || s == "-.INF" then some ⟨0xfff0000000000000⟩
  else if s == ".nan" || s == ".NaN" || s == ".NAN" then some ⟨0x7ff8000000000000⟩
  else
    match s.toList, unsigned with
    | '+' :: _, '+' :: _ => none
    | '+' :: _, '-' :: _ => none
    | _, cs => finite? cs

def plainValue (s : String) : Found :=
  if s.isEmpty || isNull s then .unit
  else
    match bool? s, integer? s with
    | some b, _ => .bool b
    | none, some n => n
    | none, none =>
      let padded := match s.toList with
        | '+' :: cs => isPadded cs
        | '-' :: cs => isPadded cs
        | cs => isPadded cs
      match if padded then none else float? s with
      | some x => .float x
      | none => .string s

def tagPrefix : String := "tag:yaml.org,2002:"

namespace Scalar

/-- Whether the text may be read as an integer: where it is plain, or a literal block tagged as one. -/
def mayBeInteger (s : Scalar) : Bool :=
  s.style == .plain || s.style == .literal && s.tag == some (tagPrefix ++ "int")

def isEmpty (s : Scalar) : Bool := s.style == .plain && s.text.isEmpty

/-- Why a scalar is not what is expected. One that its own tag does not fit is wrong for that. -/
def mismatch (s : Scalar) (expected : String) : Mismatch :=
  let tagged (found : Option Found) (kind : String) : Mismatch :=
    match found with
    | some found => .wrongType found expected
    | none => .wrongValue (.string s.text) kind
  let untagged : Mismatch :=
    .wrongType (if s.style = .plain then plainValue s.text else .string s.text) expected
  match s.tag with
  | none => untagged
  | some tag =>
    if tag = tagPrefix ++ "bool" then tagged ((bool? s.text).map .bool) "a boolean"
    else if tag = tagPrefix ++ "int" then tagged (integer? s.text) "an integer"
    else if tag = tagPrefix ++ "float" then tagged ((float? s.text).map .float) "a float"
    else if tag = tagPrefix ++ "null" then
      tagged (if isNull s.text then some .unit else none) "null"
    else if tag.startsWith "!" then untagged
    else .wrongType (.string s.text) expected

end Scalar

end VectorGraph.Yaml
