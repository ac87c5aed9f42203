/-!
Text for a terminal. Characters that drive a terminal (the bell, going back, a new page, the escape
that starts a command, deleting, and the second set of controls) are shown by their codes. Tabs and
line ends stay.
-/

namespace ResourceLint.Text

/-- The second set of controls, which some terminals take for commands. -/
def isUpperControl (c : Char) : Bool := 0x80 ≤ c.toNat && c.toNat ≤ 0x9F

def tamedChar (c : Char) : List Char :=
  match c with
  | '\x07' => ['\x5c', 'x', '0', '7']
  | '\x08' => ['\x5c', 'x', '0', '8']
  | '\x0c' => ['\x5c', 'x', '0', 'c']
  | '\x1b' => ['\x5c', 'x', '1', 'b']
  | '\x7f' => ['\x5c', 'x', '7', 'f']
  | c =>
    if isUpperControl c then ['\x5c', 'u', '\x7b'] ++ Nat.toDigits 16 c.toNat ++ ['\x7d'] else [c]

def tamed (s : String) : String := String.ofList (s.toList.flatMap tamedChar)

end ResourceLint.Text
