import ResourceLint.Files.PathPattern

/-!
How the patterns of an ignore file are kept, as far as the log tells. A pattern whose literals say
enough is looked up by them; any other is kept as a regular expression.
-/

namespace ResourceLint.PathPattern

inductive Key where
  | whole (path : String)
  | lastStep (name : String)
  | extension (text : String)
  | lastSteps (path : String)
  | requiredExtension (text : String)
  | expression

def literalText? : List Token → Option (List Char)
  | [] => some []
  | .literal c :: ts => (literalText? ts).map (c :: ·)
  | _ :: _ => none

/-- The extension that every path of a pattern ends with, read from the last token on. -/
def extensionBack? (taken : List Char) : List Token → Option (List Char)
  | .literal c :: ts =>
    if c = '/' then none
    else if c = '.' then some (c :: taken)
    else extensionBack? (c :: taken) ts
  | _ => none

def looseKey (tokens : List Token) : Key :=
  match extensionBack? [] tokens.reverse with
  | some cs => .requiredExtension (String.ofList cs)
  | none => .expression

def key (p : PathPattern) : Key :=
  match p.tokens with
  | [] => .expression
  | .leadingPath :: ts =>
    match literalText? ts, ts with
    | some [], _ => .expression
    | some cs, _ => if '/' ∈ cs then .lastSteps (String.ofList cs) else .lastStep (String.ofList cs)
    | none, .anyText :: .literal '.' :: rest =>
      match literalText? rest with
      | some cs =>
        if '.' ∈ cs || '/' ∈ cs then looseKey p.tokens else .extension (String.ofList ('.' :: cs))
      | none => looseKey p.tokens
    | none, _ => looseKey p.tokens
  | ts =>
    match literalText? ts with
    | some cs => .whole (String.ofList cs)
    | none => looseKey p.tokens

def isMeta (c : Char) : Bool := c ∈ "\\.+*?()|[]\x7b\x7d^$#&-~".toList

def expressionByte (b : UInt8) : String :=
  if b < 0x80 then
    let c := Char.ofNat b.toNat
    if isMeta c then "\\" ++ c.toString else c.toString
  else "\\x" ++ String.ofList (Nat.toDigits 16 b.toNat)

def expressionChar (c : Char) : String :=
  String.join ((String.utf8EncodeChar c).map expressionByte)

def expressionRange (range : Char × Char) : String :=
  if range.1 = range.2 then expressionChar range.1
  else expressionChar range.1 ++ "-" ++ expressionChar range.2

mutual

def Token.expression : Token → String
  | .literal c => expressionChar c
  | .anyChar => "[^/]"
  | .anyText => "[^/]*"
  | .leadingPath => "(?:/?|.*/)"
  | .innerPath => "(?:/|/.*/)"
  | .trailingPath => "/.*"
  | .oneIn ranges negated =>
    "[" ++ (if negated then "^" else "") ++ String.join (ranges.map expressionRange) ++ "]"
  | .oneOf [] => ""
  | .oneOf (branch :: branches) =>
    "(?:" ++ expressionOf branch ++ expressionOfOthers branches ++ ")"

def expressionOf : List Token → String
  | [] => ""
  | t :: ts => t.expression ++ expressionOf ts

def expressionOfOthers : List (List Token) → String
  | [] => ""
  | branch :: branches => "|" ++ expressionOf branch ++ expressionOfOthers branches

end

def expression (p : PathPattern) : String :=
  "(?-u)^" ++ (match p.tokens with
    | [.leadingPath] => ".*"
    | tokens => expressionOf tokens) ++ "$"

def conversion? (p : PathPattern) : Option String :=
  match p.key with
  | .expression =>
    some ("glob `Glob(" ++ Text.quoted p.written ++ ")` converted to regex: `"
      ++ Text.quoted p.expression ++ "`")
  | _ => none

def distinct (text? : Key → Option String) (keys : List Key) : String :=
  Nat.repr (keys.filterMap text?).eraseDups.length

/-- What the log says when patterns have been kept. Those that are looked up by last steps are
looked up as whole paths too. -/
def tally (ps : List PathPattern) : String :=
  let keys := ps.map key
  "built glob set; "
    ++ distinct (fun | .whole s => some s | .lastSteps s => some s | _ => none) keys
    ++ " literals, "
    ++ distinct (fun | .lastStep s => some s | _ => none) keys ++ " basenames, "
    ++ distinct (fun | .extension s => some s | _ => none) keys ++ " extensions, 0 prefixes, "
    ++ Nat.repr (keys.countP fun | .lastSteps _ => true | _ => false) ++ " suffixes, "
    ++ distinct (fun | .requiredExtension s => some s | _ => none) keys ++ " required extensions, "
    ++ Nat.repr (keys.countP fun | .expression => true | _ => false) ++ " regexes"

end ResourceLint.PathPattern
