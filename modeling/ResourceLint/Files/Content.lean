import ResourceLint.Files.Error
import ResourceLint.Text.Cut

/-!
What a file holds: text, or bytes that are not. Of those, the lines before the first that is not
text can still be read one by one.
-/

namespace ResourceLint

inductive Content where
  | text (s : String)
  /-- Bytes that are not text. `start` is what stands before the first line that is not. -/
  | broken (start : String)
  deriving DecidableEq, Repr

namespace Content

def textLines : List (List UInt8) → List String
  | [] => []
  | line :: lines =>
    match String.fromUTF8? ⟨line.toArray⟩ with
    | none => []
    | some s => (s ++ "\n") :: textLines lines

def ofBytes (bytes : ByteArray) : Content :=
  match String.fromUTF8? bytes with
  | some s => .text s
  | none => .broken (String.join (textLines (Text.splitWhere (· = 10) bytes.toList)))

/-- The text up to the first line that is not. -/
def readable : Content → String
  | .text s => s
  | .broken start => start

def dropReturn (line : String) : String :=
  match line.toList.reverse with
  | '\r' :: cs => String.ofList cs.reverse
  | _ => line

/-- The lines up to the first that is not text, and what follows the end of the last one. -/
def lines (c : Content) : List String :=
  let pieces := Text.split '\n' c.readable
  pieces.dropLast.map dropReturn ++ pieces.getLast?.toList

def firstLine? (c : Content) : Except FileError (Option String) :=
  match c, Text.cutFirst '\n' c.readable with
  | _, some (line, _) => .ok (some (dropReturn line))
  | .broken _, none => .error .notText
  | .text s, none => .ok (if s = "" then none else some s)

end Content

end ResourceLint
