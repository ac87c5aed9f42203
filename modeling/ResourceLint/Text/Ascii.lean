/-!
The ASCII letter and digit classes and case maps. All of them leave characters outside ASCII
alone.
-/

namespace ResourceLint.Text

def isLower (c : Char) : Bool := 'a' ≤ c && c ≤ 'z'

def isUpper (c : Char) : Bool := 'A' ≤ c && c ≤ 'Z'

def isDigit (c : Char) : Bool := '0' ≤ c && c ≤ '9'

def isAlphanumeric (c : Char) : Bool := isLower c || isUpper c || isDigit c

def toUpper (c : Char) : Char :=
  if isLower c then Char.ofNat (c.toNat - 32) else c

def toLower (c : Char) : Char :=
  if isUpper c then Char.ofNat (c.toNat + 32) else c

def hexDigit? (c : Char) : Option Nat :=
  if isDigit c then some (c.toNat - '0'.toNat)
  else if 'a' ≤ c && c ≤ 'f' then some (c.toNat - 'a'.toNat + 10)
  else if 'A' ≤ c && c ≤ 'F' then some (c.toNat - 'A'.toNat + 10)
  else none

def decimal (digits : List Char) : Nat :=
  digits.foldl (fun n c => n * 10 + (c.toNat - '0'.toNat)) 0

def hexadecimal? (digits : List Char) : Option Nat :=
  digits.foldlM (fun n c => (hexDigit? c).map (n * 16 + ·)) 0

end ResourceLint.Text
