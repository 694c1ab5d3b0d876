import AccessControl.Text.Hex
import AccessControl.Text.Unprinted

/-!
Text between double quotes. Quotes and backslashes are escaped, four controls have escapes of their
own, and other unprinted characters are shown by their number.
-/

namespace AccessControl.Quoted

/-- One character of a quoted text. -/
def escape (c : Char) : List Char :=
  match c with
  | '\x00' => ['\\', '0']
  | '\t' => ['\\', 't']
  | '\n' => ['\\', 'n']
  | '\r' => ['\\', 'r']
  | '"' => ['\\', '"']
  | '\\' => ['\\', '\\']
  | c =>
    if Unprinted.isUnprinted c then
      ['\\', 'u', '\x7b'] ++ Nat.toDigits 16 c.toNat ++ ['\x7d']
    else [c]

/-- A text between quotes. -/
def quote (text : String) : String :=
  String.ofList ('"' :: text.toList.flatMap escape ++ ['"'])

/-- Texts in braces, each between quotes, with a comma between each two. -/
def set (texts : List String) : String :=
  "\x7b" ++ String.intercalate ", " (texts.map quote) ++ "\x7d"

end AccessControl.Quoted
