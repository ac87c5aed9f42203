import ResourceLint.Text.Unseen

/-!
Text between double quotes, as diagnostics show it. Quotes and backslashes are escaped, and so is
what cannot be seen by itself: it is shown by its code point unless it has a letter of its own.
-/

namespace ResourceLint.Text

def quotedChar (c : Char) : List Char :=
  match c with
  | '\x22' => ['\x5c', '\x22']
  | '\x5c' => ['\x5c', '\x5c']
  | '\n' => ['\x5c', 'n']
  | '\r' => ['\x5c', 'r']
  | '\t' => ['\x5c', 't']
  | '\x00' => ['\x5c', '0']
  | c =>
    if isUnseen c then ['\x5c', 'u', '\x7b'] ++ Nat.toDigits 16 c.toNat ++ ['\x7d'] else [c]

def quoted (s : String) : String :=
  String.ofList ('\x22' :: s.toList.flatMap quotedChar ++ ['\x22'])

end ResourceLint.Text
