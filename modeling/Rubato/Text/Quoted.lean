import Rubato.Text.Printable

namespace Rubato.Text

/-! Quoted text, as messages show it: between double quotes, with a backslash
before a quote or a backslash, the usual letters for the common control
characters, and the code point in braces for the other characters that do not
show. -/

def hexDigits (code : Nat) : List Char :=
  Nat.toDigits 16 code

def quotedChar (c : Char) : List Char :=
  match c with
  | '"' => ['\\', '"']
  | '\\' => ['\\', '\\']
  | '\n' => ['\\', 'n']
  | '\r' => ['\\', 'r']
  | '\t' => ['\\', 't']
  | '\x00' => ['\\', '0']
  | c =>
    if isShown c then [c]
    else ['\\', 'u', '\x7b'] ++ hexDigits c.toNat ++ ['\x7d']

def quote (text : List Char) : List Char :=
  '"' :: text.flatMap quotedChar ++ ['"']

def quoted (text : String) : String :=
  String.ofList (quote text.toList)

end Rubato.Text
