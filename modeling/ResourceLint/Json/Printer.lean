import ResourceLint.Data.Value

/-!
Writing values as JSON text: on one line, or indented by two blanks for each level.
-/

namespace ResourceLint.Json

open Data

def hexChar (n : Nat) : Char :=
  if n < 10 then Char.ofNat ('0'.toNat + n) else Char.ofNat ('a'.toNat + (n - 10))

/-- How a character stands in a string: quote, backslash and control characters are escaped. -/
def escapeChar (c : Char) : List Char :=
  match c with
  | '\x22' => ['\x5c', '\x22']
  | '\x5c' => ['\x5c', '\x5c']
  | '\x08' => ['\x5c', 'b']
  | '\x0c' => ['\x5c', 'f']
  | '\n' => ['\x5c', 'n']
  | '\r' => ['\x5c', 'r']
  | '\t' => ['\x5c', 't']
  | c =>
    if c.toNat < 0x20 then
      ['\x5c', 'u', '0', '0', hexChar (c.toNat / 16), hexChar (c.toNat % 16)]
    else [c]

def quoteChars (cs : List Char) : List Char :=
  '\x22' :: cs.flatMap escapeChar ++ ['\x22']

def quote (s : String) : String :=
  String.ofList (quoteChars s.toList)

def indent (level : Nat) : String :=
  String.ofList (List.replicate (2 * level) ' ')

/-- A scalar's text. Nothing writes `unreadable`, which stands as null. -/
def scalarText : Value → String
  | .bool true => "true"
  | .bool false => "false"
  | .natural n => Nat.repr n
  | .numeral s => s
  | .text s => quote s
  | _ => "null"

mutual

def pretty (level : Nat) : Value → String
  | .list [] => "[]"
  | .list (v :: vs) =>
    "[\n" ++ indent (level + 1) ++ pretty (level + 1) v ++ prettyItems (level + 1) vs ++ "\n"
      ++ indent level ++ "]"
  | .record [] => "\x7b\x7d"
  | .record ((k, v) :: es) =>
    "\x7b\n" ++ indent (level + 1) ++ quote k ++ ": " ++ pretty (level + 1) v
      ++ prettyEntries (level + 1) es ++ "\n" ++ indent level ++ "\x7d"
  | v => scalarText v

def prettyItems (level : Nat) : List Value → String
  | [] => ""
  | v :: vs => ",\n" ++ indent level ++ pretty level v ++ prettyItems level vs

def prettyEntries (level : Nat) : List (String × Value) → String
  | [] => ""
  | (k, v) :: es =>
    ",\n" ++ indent level ++ quote k ++ ": " ++ pretty level v ++ prettyEntries level es

end

mutual

def compact : Value → String
  | .list [] => "[]"
  | .list (v :: vs) => "[" ++ compact v ++ compactItems vs ++ "]"
  | .record [] => "\x7b\x7d"
  | .record ((k, v) :: es) =>
    "\x7b" ++ quote k ++ ":" ++ compact v ++ compactEntries es ++ "\x7d"
  | v => scalarText v

def compactItems : List Value → String
  | [] => ""
  | v :: vs => "," ++ compact v ++ compactItems vs

def compactEntries : List (String × Value) → String
  | [] => ""
  | (k, v) :: es => "," ++ quote k ++ ":" ++ compact v ++ compactEntries es

end

end ResourceLint.Json
