import ResourceLint.Data.Value
import ResourceLint.Text.Cut
import ResourceLint.Text.Scan

/-!
Numbers in a TOML document. Single underscores may stand between digits. Integers fit 64 bits with
a sign; a number above the greatest double is refused, one below the least is not.
-/

namespace ResourceLint.Toml

open Data Text

def grouped? (p : Char → Bool) (cs : List Char) : Option (List Char) :=
  let groups := splitWhere (· = '_') cs
  if groups.all fun g => !g.isEmpty && g.all p then some groups.flatten else none

def inBase (base : Nat) (digits : List Char) : Nat :=
  digits.foldl (fun n c => n * base + (hexDigit? c).getD 0) 0

def isDigitBelow (base : Nat) (c : Char) : Bool := (hexDigit? c).any (· < base)

/-- A sign, if there is one, and the rest. The sign is whether the number is negative. -/
def signed : List Char → Bool × List Char
  | '-' :: rest => (true, rest)
  | '+' :: rest => (false, rest)
  | cs => (false, cs)

def wholeDigits? (cs : List Char) : Option (List Char) :=
  match grouped? isDigit cs with
  | some ('0' :: _ :: _) => none
  | digits => digits

def integerValue (written : List Char) (negative : Bool) (n : Nat) : Option Value :=
  if negative then
    if n ≤ Nat.pow 2 63 then some (.numeral (String.ofList written)) else none
  else if n < Nat.pow 2 63 then some (.natural n)
  else none

def basedInteger? (written : List Char) (base : Nat) (cs : List Char) : Option Value :=
  (grouped? (isDigitBelow base) cs).bind fun digits =>
    integerValue written false (inBase base digits)

def integer? (cs : List Char) : Option Value :=
  match cs with
  | '0' :: 'x' :: rest => basedInteger? cs 16 rest
  | '0' :: 'o' :: rest => basedInteger? cs 8 rest
  | '0' :: 'b' :: rest => basedInteger? cs 2 rest
  | _ =>
    (wholeDigits? (signed cs).2).bind fun digits =>
      integerValue cs (signed cs).1 (decimal digits)

/-- Half a unit above the greatest finite double: from here on a number rounds to infinity. -/
def infinityBound : Nat := Nat.pow 2 1024 - Nat.pow 2 970

/-- Whether `digits`, with the decimal point moved by `shift` to the right, reaches the bound. -/
def overflows (digits : List Char) (shift : Int) : Bool :=
  let digits := digits.dropWhile (· = '0')
  let magnitude : Int := digits.length + shift
  if digits.isEmpty || magnitude ≤ 300 then false
  else if 320 < magnitude then true
  else
    match shift with
    | .ofNat n => infinityBound ≤ decimal digits * Nat.pow 10 n
    | .negSucc n => infinityBound * Nat.pow 10 (n + 1) ≤ decimal digits

def isExponentMark (c : Char) : Bool := c = 'e' || c = 'E'

def exponent? : List Char → Option Int
  | [] => some 0
  | _ :: cs =>
    (grouped? isDigit (signed cs).2).map fun digits =>
      if (signed cs).1 then - (decimal digits : Int) else decimal digits

def fraction? : List Char → Option (List Char)
  | [] => some []
  | '.' :: cs => grouped? isDigit cs
  | _ => none

def float? (cs : List Char) : Option Value := do
  let (negative, body) := signed cs
  let mantissa := body.takeWhile (!isExponentMark ·)
  let tail := body.dropWhile (!isExponentMark ·)
  let point := mantissa.dropWhile (· != '.')
  if tail.isEmpty && point.isEmpty then none
  else
    let whole ← wholeDigits? (mantissa.takeWhile (· != '.'))
    let fraction ← fraction? point
    let exponent ← exponent? tail
    if !negative && overflows (whole ++ fraction) (exponent - fraction.length) then none
    else some (.numeral (String.ofList cs))

def special? (cs : List Char) : Option Value :=
  if (signed cs).2 = ['i', 'n', 'f'] ∨ (signed cs).2 = ['n', 'a', 'n'] then
    some (.numeral (String.ofList cs))
  else none

def number? (cs : List Char) : Option Value :=
  integer? cs <|> float? cs <|> special? cs

end ResourceLint.Toml
