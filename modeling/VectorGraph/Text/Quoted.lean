import VectorGraph.Text.Hexadecimal
import VectorGraph.Text.Visible

/-!
Texts within messages: between double quotes, with a backslash before quotes and backslashes, and with
characters that do not show written as escapes.
-/
namespace VectorGraph.Text

def quoteChar (c : Char) : List Char :=
  match c with
  | '"' => ['\\', '"']
  | '\\' => ['\\', '\\']
  | '\n' => ['\\', 'n']
  | '\r' => ['\\', 'r']
  | '\t' => ['\\', 't']
  | '\x00' => ['\\', '0']
  | c => if isVisible c then [c] else ['\\', 'u', '\x7b'] ++ hexDigits c.toNat ++ ['\x7d']

def quote (s : String) : String := .ofList ('"' :: s.toList.flatMap quoteChar ++ ['"'])

end VectorGraph.Text
