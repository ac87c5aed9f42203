import ResourceLint.Catalog
import ResourceLint.Log
import ResourceLint.Naming
import ResourceLint.Text.Blank
import ResourceLint.TypeTable.Ancestry

/-!
Which schema entry a class wraps. A class says so by a tag, or else suggests it by the shape of
its name, or else leaves it to its ancestors; a tagged class is never looked past.
-/

namespace ResourceLint

inductive SchemaClue where
  | tagged (typeName : String)
  | inferred (typeName : String)
  | absent
  deriving DecidableEq, Repr

namespace SchemaClue

def typeName? : SchemaClue → Option String
  | .tagged typeName => some typeName
  | .inferred typeName => some typeName
  | .absent => none

def isTagged : SchemaClue → Bool
  | .tagged _ => true
  | _ => false

end SchemaClue

def resourceTag : String := "resource"

def ClassDecl.schemaClue (c : ClassDecl) : SchemaClue :=
  match c.tag? resourceTag with
  | some typeName => .tagged (Text.trim typeName)
  | none =>
    match Naming.inferredType? c.fqn with
    | some typeName => .inferred typeName
    | none => .absent

namespace Catalog

def ownEntry? (cat : Catalog) (c : ClassDecl) : Option SchemaEntry :=
  c.schemaClue.typeName?.bind cat.find?

def clueLog (cat : Catalog) (c : ClassDecl) : List LogLine :=
  match c.schemaClue with
  | .tagged typeName =>
    [⟨.debug, c.fqn ++ ": @" ++ resourceTag ++ " " ++ typeName ++ " -> "
      ++ (if (cat.find? typeName).isSome then "found" else "not found")⟩]
  | .inferred typeName =>
    [⟨.debug, c.fqn ++ ": inferred " ++ typeName
      ++ (if (cat.find? typeName).isSome then "" else " is not a schema resource")⟩]
  | .absent => []

end Catalog

namespace TypeTable

/-- The classes consulted for the pending names, each at most once, up to the first that names an
entry. An untagged class that names none is followed by its ancestors. -/
def consultedFrom (t : TypeTable) (cat : Catalog) (visited : List String) :
    List String → List ClassDecl
  | [] => []
  | fqn :: pending =>
    match _h : t.class? fqn with
    | none => t.consultedFrom cat visited pending
    | some c =>
      if c.fqn ∈ visited then t.consultedFrom cat visited pending
      else if (cat.ownEntry? c).isSome then [c]
      else if c.schemaClue.isTagged then c :: t.consultedFrom cat (c.fqn :: visited) pending
      else
        c :: t.consultedFrom cat (c.fqn :: visited) ((t.ancestors c).map (·.fqn) ++ pending)
termination_by pending => (unseen t.classNames visited, pending.length)
decreasing_by
  · exact Prod.Lex.right _ (by simp)
  · exact Prod.Lex.right _ (by simp)
  · exact Prod.Lex.left _ _ (unseen_cons_lt (mem_classNames_of_class? _h) ‹_›)
  · exact Prod.Lex.left _ _ (unseen_cons_lt (mem_classNames_of_class? _h) ‹_›)

def consulted (t : TypeTable) (cat : Catalog) (c : ClassDecl) : List ClassDecl :=
  if (cat.ownEntry? c).isSome || c.schemaClue.isTagged then [c]
  else c :: t.consultedFrom cat [c.fqn] ((t.ancestors c).map (·.fqn))

def schemaFor? (t : TypeTable) (cat : Catalog) (c : ClassDecl) : Option SchemaEntry :=
  (t.consulted cat c).findSome? cat.ownEntry?

def schemaLog (t : TypeTable) (cat : Catalog) (c : ClassDecl) : List LogLine :=
  (t.consulted cat c).flatMap cat.clueLog

end TypeTable

end ResourceLint
