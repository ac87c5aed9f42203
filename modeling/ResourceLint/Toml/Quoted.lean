import ResourceLint.Toml.Layout

/-!
Quoted text in a TOML document. Text between double quotes has escapes, text between single quotes
has none; text between three of either may go over several lines.
-/

namespace ResourceLint.Toml

open Text

inductive Quote where
  | single
  | double
  deriving DecidableEq, Repr

def Quote.mark : Quote → Char
  | .single => '\x27'
  | .double => '\x22'

def shortEscape? : Char → Option Char
  | '\x22' => some '\x22'
  | '\x5c' => some '\x5c'
  | 'b' => some '\x08'
  | 'f' => some '\x0c'
  | 'n' => some '\n'
  | 'r' => some '\r'
  | 't' => some '\t'
  | _ => none

/-- The character whose code point hexadecimal digits write. Surrogates have none. -/
def codePoint? (digits : List Char) : Option Char :=
  (hexadecimal? digits).bind fun n =>
    if n < 0xD800 ∨ 0xDFFF < n ∧ n < 0x110000 then some (Char.ofNat n) else none

def hexEscape (count : Nat) : Scan Char := fun cs =>
  if count ≤ cs.length then (codePoint? (cs.take count)).map (·, cs.drop count) else none

def escape : Scan Char
  | [] => none
  | c :: rest =>
    if c = 'u' then hexEscape 4 rest
    else if c = 'U' then hexEscape 8 rest
    else (shortEscape? c).map (·, rest)

theorem escape_length_lt {cs rest : List Char} {c : Char} (h : escape cs = some (c, rest)) :
    rest.length < cs.length := by
  have hex {count : Nat} {tail : List Char} (h : hexEscape count tail = some (c, rest)) :
      rest.length ≤ tail.length := by
    unfold hexEscape at h
    split at h
    · obtain ⟨_, _, heq⟩ := Option.map_eq_some_iff.1 h
      cases heq
      simp
    · cases h
  unfold escape at h
  split at h
  · cases h
  · rename_i d tail
    simp only [List.length_cons]
    split at h
    · have := hex h
      omega
    · split at h
      · have := hex h
        omega
      · obtain ⟨_, _, heq⟩ := Option.map_eq_some_iff.1 h
        cases heq
        omega

def prepend (c : Char) (read : Option (List Char × List Char)) : Option (List Char × List Char) :=
  read.map fun p => (c :: p.1, p.2)

def lineBody (q : Quote) (cs : List Char) : Option (List Char × List Char) :=
  match cs with
  | [] => none
  | c :: rest =>
    if c = q.mark then some ([], rest)
    else if c = '\x5c' ∧ q = .double then
      match _h : escape rest with
      | none => none
      | some (e, rest') => prepend e (lineBody q rest')
    else if isPlain c then prepend c (lineBody q rest)
    else none
termination_by cs.length
decreasing_by
  · have := escape_length_lt _h
    simp only [List.length_cons]
    omega
  · simp

/-- What follows a backslash at the end of a line, with the blanks and line ends after it. -/
def continued? (cs : List Char) : Option (List Char) :=
  (newline? (skipBlanks cs)).map skipLines

theorem continued?_length_lt {cs rest : List Char} (h : continued? cs = some rest) :
    rest.length < cs.length := by
  obtain ⟨tail, hn, rfl⟩ := Option.map_eq_some_iff.1 h
  have h1 := newline?_length_lt hn
  have h2 := skipLines_length_le tail
  have h3 := (List.dropWhile_suffix (l := cs) isBlank).length_le
  unfold skipBlanks at h1
  omega

def quoteRun (q : Quote) (cs : List Char) : Nat := (cs.takeWhile (· = q.mark)).length

/-- The text up to three closing quotes, over any number of lines, and what follows them. One or
two quotes before the closing three belong to the text. -/
def blockBody (q : Quote) (cs : List Char) : Option (List Char × List Char) :=
  match cs with
  | [] => none
  | c :: rest =>
    if c = q.mark then
      let run := min (quoteRun q (c :: rest)) 5
      if run < 3 then prepend c (blockBody q rest)
      else some (List.replicate (run - 3) c, (c :: rest).drop run)
    else
      match _hn : newline? (c :: rest) with
      | some rest' => prepend '\n' (blockBody q rest')
      | none =>
        if c = '\x5c' ∧ q = .double then
          match _hc : continued? rest with
          | some rest' => blockBody q rest'
          | none =>
            match _he : escape rest with
            | none => none
            | some (e, rest') => prepend e (blockBody q rest')
        else if isPlain c then prepend c (blockBody q rest)
        else none
termination_by cs.length
decreasing_by
  · simp
  · exact newline?_length_lt _hn
  · have := continued?_length_lt _hc
    simp only [List.length_cons]
    omega
  · have := escape_length_lt _he
    simp only [List.length_cons]
    omega
  · simp

/-- Quoted text after its first quote. A line end right after three opening quotes is not part of
the text. -/
def quotedBody (q : Quote) (cs : List Char) : Option (List Char × List Char) :=
  match dropWord [q.mark, q.mark] cs with
  | some rest => blockBody q ((newline? rest).getD rest)
  | none => lineBody q cs

def quote? (c : Char) : Option Quote :=
  if c = Quote.single.mark then some .single
  else if c = Quote.double.mark then some .double
  else none

end ResourceLint.Toml
