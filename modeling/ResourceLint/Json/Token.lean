import ResourceLint.Data.Value
import ResourceLint.Text.Scan

/-!
The lexical level of JSON. A text is a sequence of punctuation, literals, numbers and strings,
with blanks between them. A string is read as pieces first, because an escaped surrogate means
something only beside its partner.
-/

namespace ResourceLint.Json

open Data Text

inductive Token where
  | openObject
  | closeObject
  | openArray
  | closeArray
  | colon
  | comma
  | scalar (v : Value)

/-- A character written as itself or by a short escape, or the code unit of a `\u` escape. -/
inductive Piece where
  | char (c : Char)
  | unit (n : Nat)

def isHighSurrogate (n : Nat) : Bool := 0xD800 ≤ n && n ≤ 0xDBFF

def isLowSurrogate (n : Nat) : Bool := 0xDC00 ≤ n && n ≤ 0xDFFF

/-- The text that pieces spell, if every surrogate has its partner. -/
def joinPieces : List Piece → Option (List Char)
  | [] => some []
  | .char c :: rest => (joinPieces rest).map (c :: ·)
  | [.unit n] =>
    if isHighSurrogate n || isLowSurrogate n then none else some [Char.ofNat n]
  | .unit n :: .char c :: rest =>
    if isHighSurrogate n || isLowSurrogate n then none
    else (joinPieces (.char c :: rest)).map (Char.ofNat n :: ·)
  | .unit n :: .unit m :: rest =>
    if isHighSurrogate n then
      if isLowSurrogate m then
        (joinPieces rest).map (Char.ofNat (0x10000 + (n - 0xD800) * 0x400 + (m - 0xDC00)) :: ·)
      else none
    else if isLowSurrogate n then none
    else (joinPieces (.unit m :: rest)).map (Char.ofNat n :: ·)

def shortEscape? : Char → Option Char
  | '\x22' => some '\x22'
  | '\x5c' => some '\x5c'
  | '/' => some '/'
  | 'b' => some '\x08'
  | 'f' => some '\x0c'
  | 'n' => some '\n'
  | 'r' => some '\r'
  | 't' => some '\t'
  | _ => none

def lexString : Scan (List Piece)
  | [] => none
  | '\x22' :: rest => some ([], rest)
  | '\x5c' :: 'u' :: a :: b :: c :: d :: rest =>
    match hexadecimal? [a, b, c, d] with
    | some n => (lexString rest).map fun p => (.unit n :: p.1, p.2)
    | none => none
  | '\x5c' :: e :: rest =>
    match shortEscape? e with
    | some c => (lexString rest).map fun p => (.char c :: p.1, p.2)
    | none => none
  | c :: rest =>
    if c.toNat < 0x20 then none
    else (lexString rest).map fun p => (.char c :: p.1, p.2)

theorem lexString_length_lt {cs rest : List Char} {pieces : List Piece}
    (h : lexString cs = some (pieces, rest)) : rest.length < cs.length := by
  fun_induction lexString cs generalizing pieces rest with
  | case1 => cases h
  | case2 tail =>
    cases h
    simp
  | case3 a b c d tail n hn ih =>
    obtain ⟨p, hp, heq⟩ := Option.map_eq_some_iff.1 h
    cases heq
    have := ih hp
    simp only [List.length_cons]
    omega
  | case4 => cases h
  | case5 e tail he c hc ih =>
    obtain ⟨p, hp, heq⟩ := Option.map_eq_some_iff.1 h
    cases heq
    have := ih hp
    simp only [List.length_cons]
    omega
  | case6 => cases h
  | case7 => cases h
  | case8 c tail _ _ _ _ ih =>
    obtain ⟨p, hp, heq⟩ := Option.map_eq_some_iff.1 h
    cases heq
    have := ih hp
    simp only [List.length_cons]
    omega

/-- A string scalar: its text, or `unreadable` when a surrogate has no partner. -/
def stringValue (pieces : List Piece) : Value :=
  match joinPieces pieces with
  | some cs => .text (String.ofList cs)
  | none => .unreadable

/-- Zero alone, or digits that do not start with zero. -/
def lexInteger : Scan (List Char)
  | '0' :: rest => some (['0'], rest)
  | cs => spanSome isDigit cs

def lexFraction : Scan (List Char)
  | '.' :: rest => (spanSome isDigit rest).map fun p => ('.' :: p.1, p.2)
  | cs => some ([], cs)

def lexSign : List Char → List Char × List Char
  | '+' :: rest => (['+'], rest)
  | '-' :: rest => (['-'], rest)
  | cs => ([], cs)

def lexExponent : Scan (List Char)
  | [] => some ([], [])
  | c :: rest =>
    if c = 'e' ∨ c = 'E' then
      let sign := lexSign rest
      (spanSome isDigit sign.2).map fun p => (c :: sign.1 ++ p.1, p.2)
    else some ([], c :: rest)

def lexMinus : List Char → List Char × List Char
  | '-' :: rest => (['-'], rest)
  | cs => ([], cs)

/-- The value of a number by its parts. Only an unsigned integer has a value of its own; any other
stays as written. -/
def numberValue (sign whole fraction exponent : List Char) : Value :=
  if sign.isEmpty && fraction.isEmpty && exponent.isEmpty then .natural (decimal whole)
  else .numeral (String.ofList (sign ++ whole ++ fraction ++ exponent))

def lexNumber : Scan Value := fun cs => do
  let minus := lexMinus cs
  let whole ← lexInteger minus.2
  let fraction ← lexFraction whole.2
  let exponent ← lexExponent fraction.2
  return (numberValue minus.1 whole.1 fraction.1 exponent.1, exponent.2)

theorem lexMinus_length_le (cs : List Char) : (lexMinus cs).2.length ≤ cs.length := by
  unfold lexMinus
  split
  · simp
  · exact Nat.le_refl _

theorem lexSign_length_le (cs : List Char) : (lexSign cs).2.length ≤ cs.length := by
  unfold lexSign
  split
  · simp
  · simp
  · exact Nat.le_refl _

theorem lexInteger_length_lt {cs : List Char} {p : List Char × List Char}
    (h : lexInteger cs = some p) : p.2.length < cs.length := by
  unfold lexInteger at h
  split at h
  · cases h
    simp
  · exact spanSome_length_lt h

theorem lexFraction_length_le {cs : List Char} {p : List Char × List Char}
    (h : lexFraction cs = some p) : p.2.length ≤ cs.length := by
  unfold lexFraction at h
  split at h
  · obtain ⟨q, hq, rfl⟩ := Option.map_eq_some_iff.1 h
    have := spanSome_length_lt hq
    simp only [List.length_cons]
    omega
  · cases h
    exact Nat.le_refl _

theorem lexExponent_length_le {cs : List Char} {p : List Char × List Char}
    (h : lexExponent cs = some p) : p.2.length ≤ cs.length := by
  unfold lexExponent at h
  split at h
  · cases h
    exact Nat.le_refl _
  · rename_i c rest
    split at h
    · obtain ⟨q, hq, rfl⟩ := Option.map_eq_some_iff.1 h
      have h1 := spanSome_length_lt hq
      have h2 := lexSign_length_le rest
      simp only [List.length_cons]
      omega
    · cases h
      exact Nat.le_refl _

theorem lexNumber_length_lt {cs rest : List Char} {v : Value}
    (h : lexNumber cs = some (v, rest)) : rest.length < cs.length := by
  obtain ⟨whole, hw, h⟩ := Option.bind_eq_some_iff.1 h
  obtain ⟨fraction, hf, h⟩ := Option.bind_eq_some_iff.1 h
  obtain ⟨exponent, he, h⟩ := Option.bind_eq_some_iff.1 h
  cases h
  have h0 := lexMinus_length_le cs
  have h1 := lexInteger_length_lt hw
  have h2 := lexFraction_length_le hf
  have h3 := lexExponent_length_le he
  omega

def punctuation? : Char → Option Token
  | '\x7b' => some .openObject
  | '\x7d' => some .closeObject
  | '[' => some .openArray
  | ']' => some .closeArray
  | ':' => some .colon
  | ',' => some .comma
  | _ => none

def isSpace (c : Char) : Bool := c = ' ' || c = '\t' || c = '\n' || c = '\r'

def lexScalar : Scan Value
  | '\x22' :: rest => (lexString rest).map fun p => (stringValue p.1, p.2)
  | 'n' :: rest => (dropWord ['u', 'l', 'l'] rest).map (Value.null, ·)
  | 't' :: rest => (dropWord ['r', 'u', 'e'] rest).map (Value.bool true, ·)
  | 'f' :: rest => (dropWord ['a', 'l', 's', 'e'] rest).map (Value.bool false, ·)
  | cs => lexNumber cs

theorem lexScalar_length_lt {cs rest : List Char} {v : Value}
    (h : lexScalar cs = some (v, rest)) : rest.length < cs.length := by
  have word {w : List Char} {u : Value} {tail : List Char}
      (h : (dropWord w tail).map (u, ·) = some (v, rest)) : rest.length ≤ tail.length := by
    obtain ⟨r, hr, heq⟩ := Option.map_eq_some_iff.1 h
    cases heq
    exact dropWord_length_le hr
  unfold lexScalar at h
  split at h
  · obtain ⟨p, hp, heq⟩ := Option.map_eq_some_iff.1 h
    cases heq
    have := lexString_length_lt hp
    simp only [List.length_cons]
    omega
  · have := word h
    simp only [List.length_cons]
    omega
  · have := word h
    simp only [List.length_cons]
    omega
  · have := word h
    simp only [List.length_cons]
    omega
  · exact lexNumber_length_lt h

def lex (cs : List Char) : Option (List Token) :=
  match cs with
  | [] => some []
  | c :: rest =>
    if isSpace c then lex rest
    else
      match punctuation? c with
      | some t => (lex rest).map (t :: ·)
      | none =>
        match _h : lexScalar (c :: rest) with
        | none => none
        | some (v, rest') => (lex rest').map (.scalar v :: ·)
termination_by cs.length
decreasing_by
  · simp
  · simp
  · exact lexScalar_length_lt _h

end ResourceLint.Json
