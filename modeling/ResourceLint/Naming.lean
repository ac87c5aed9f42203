import ResourceLint.Catalog
import ResourceLint.Text.Cut
import ResourceLint.Text.Scan

/-!
Naming conventions: camel case, the property name expected for a schema attribute, and the schema
type name that the shape of a class name suggests.
-/

namespace ResourceLint.Naming

open Text

/-- The words of a text: its longest runs of ASCII letters and digits. -/
def words (cs : List Char) : List (List Char) :=
  (splitWhere (!isAlphanumeric ·) cs).filter (!·.isEmpty)

/-- How many leading letters of a first word are put in lower case: all of its leading capitals,
less one when there are several and the word goes on after them. -/
def acronymLength (word : List Char) : Nat :=
  let run := (word.takeWhile isUpper).length
  if 1 < run ∧ run < word.length then run - 1 else run

def lowerFirst (word : List Char) : List Char :=
  (word.take (acronymLength word)).map toLower ++ word.drop (acronymLength word)

def upperFirst : List Char → List Char
  | [] => []
  | c :: cs => toUpper c :: cs

def camelChars (cs : List Char) : List Char :=
  match words cs with
  | [] => []
  | w :: ws => lowerFirst w ++ ws.flatMap upperFirst

/-- Camel case: what is neither letter nor digit separates words, and a leading acronym goes to
lower case as a whole. -/
def camelCase (s : String) : String := String.ofList (camelChars s.toList)

/-- The property name expected for an attribute: its own in camel case if that starts with the
resource's, and otherwise the two joined. -/
def expectedProperty (schema : SchemaEntry) (attr : String) : String :=
  if (camelChars schema.basename.toList).isPrefixOf (camelChars attr.toList) then
    camelCase attr
  else
    camelCase (schema.basename ++ attr)

def spellings (schema : SchemaEntry) (attr : String) : List String :=
  [attr, camelCase attr, expectedProperty schema attr]

def isPackageChar (c : Char) : Bool := isAlphanumeric c || c = '_' || c = '.' || c = '-'

/-- The organisation, namespace and name in a class name of the shape
`@package/organisation-namespace.Name`, where the at sign may be missing. -/
def shape? (cs : List Char) : Option (List Char × List Char × List Char) := do
  let (_, cs) ← spanSome isPackageChar ((dropChar '@' cs).getD cs)
  let cs ← dropChar '/' cs
  let (organisation, cs) ← spanSome isLower cs
  let cs ← dropChar '-' cs
  let (space, cs) ← spanSome (fun c => isLower c || isDigit c) cs
  let cs ← dropChar '.' cs
  let (name, cs) ← spanSome isAlphanumeric cs
  if cs.isEmpty then some (organisation, space, name) else none

def inferredType? (fqn : String) : Option String :=
  (shape? fqn.toList).map fun (organisation, space, name) =>
    String.ofList
      (organisation.map toUpper ++ [':', ':'] ++ space.map toUpper ++ [':', ':'] ++ name)

end ResourceLint.Naming
