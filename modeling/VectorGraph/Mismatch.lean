import VectorGraph.Binary
import VectorGraph.Text.Quoted

/-!
How data of the right grammar can fail to be the record that is asked for, whatever the format.
-/
namespace VectorGraph

/-- A value that was met where something else was expected. -/
inductive Found where
  | bool (b : Bool)
  | integer (n : Int)
  /-- An integer that needs more than 64 bits, with the name of the type that holds it. -/
  | wide (n : Int) (type : String)
  | float (x : Binary64)
  | string (s : String)
  | unit
  | sequence
  | map
deriving DecidableEq

inductive Mismatch where
  | wrongType (found : Found) (expected : String)
  | wrongValue (found : Found) (expected : String)
  | wrongLength (length : Nat) (expected : String)
  | unknownVariant (name : String) (known : List String)
  | duplicateField (name : String)
  | missingField (name : String)
deriving DecidableEq

/-- What a format calls the absent value, and how it writes numbers. -/
structure Wording where
  unit : String
  float : Binary64 → String

def ticked (s : String) : String := "`" ++ s ++ "`"

def Found.describe (w : Wording) : Found → String
  | bool b => "boolean " ++ ticked (if b then "true" else "false")
  | integer n => "integer " ++ ticked (toString n)
  | wide n type => "integer " ++ ticked (toString n) ++ " as " ++ type
  | float x => "floating point " ++ ticked (w.float x)
  | string s => "string " ++ Text.quote s
  | unit => w.unit
  | sequence => "sequence"
  | map => "map"

/-- Two alternatives are joined by "or", more are listed. -/
def alternatives : List String → String
  | [a, b] => ticked a ++ " or " ++ ticked b
  | [a] => ticked a
  | names => "one of " ++ ", ".intercalate (names.map ticked)

def Mismatch.message (w : Wording) : Mismatch → String
  | wrongType found expected => "invalid type: " ++ found.describe w ++ ", expected " ++ expected
  | wrongValue found expected => "invalid value: " ++ found.describe w ++ ", expected " ++ expected
  | wrongLength length expected =>
    "invalid length " ++ toString length ++ ", expected " ++ expected
  | unknownVariant name known =>
    "unknown variant " ++ ticked name ++ ", expected " ++ alternatives known
  | duplicateField name => "duplicate field " ++ ticked name
  | missingField name => "missing field " ++ ticked name

end VectorGraph
