import ResourceLint.Text.Scan

/-!
What stands between the parts of a TOML document: blanks, line ends and comments. A line ends with
a line feed, with a carriage return before it or without; a carriage return elsewhere is no
character of a document.
-/

namespace ResourceLint.Toml

open Text

def isBlank (c : Char) : Bool := c = ' ' || c = '\t'

def isPlain (c : Char) : Bool := c = '\t' || ' ' ≤ c && c ≤ '~' || 0x80 ≤ c.toNat

def skipBlanks (cs : List Char) : List Char := cs.dropWhile isBlank

def newline? : List Char → Option (List Char)
  | '\n' :: rest => some rest
  | '\r' :: '\n' :: rest => some rest
  | _ => none

def skipComment : List Char → List Char
  | '#' :: rest => rest.dropWhile isPlain
  | cs => cs

/-- What follows the end of a line, with the blanks and the comment before it. The document's end
is the end of its last line. -/
def lineEnd? (cs : List Char) : Option (List Char) :=
  match skipComment (skipBlanks cs) with
  | [] => some []
  | rest => newline? rest

def skipLines : List Char → List Char
  | [] => []
  | '\r' :: '\n' :: rest => skipLines rest
  | c :: rest => if c = '\n' || isBlank c then skipLines rest else c :: rest

/-- What follows any blanks, line ends and comments, where `inComment` says whether the text starts
within a comment. -/
def skipLayout (inComment : Bool) : List Char → List Char
  | [] => []
  | '\r' :: '\n' :: rest => skipLayout false rest
  | c :: rest =>
    if c = '\n' then skipLayout false rest
    else if inComment then
      if isPlain c then skipLayout true rest else c :: rest
    else if isBlank c then skipLayout false rest
    else if c = '#' then skipLayout true rest
    else c :: rest

theorem skipLines_length_le (cs : List Char) : (skipLines cs).length ≤ cs.length := by
  fun_induction skipLines cs with
  | case1 => simp
  | case2 rest ih =>
    simp only [List.length_cons]
    omega
  | case3 c rest _ _ ih =>
    simp only [List.length_cons]
    omega
  | case4 => simp

theorem newline?_length_lt {cs rest : List Char} (h : newline? cs = some rest) :
    rest.length < cs.length := by
  unfold newline? at h
  split at h
  · cases h
    simp
  · cases h
    simp only [List.length_cons]
    omega
  · cases h

end ResourceLint.Toml
